import CquptRaft.Cluster.BoundaryOrder
import CquptRaft.Cluster.ReportedTerms
import CquptRaft.Node.Stored

/-!
# Boundaries and durable terms

A snapshot is of a prefix that was chosen in the term of the node that takes or installs it. As
long as every higher term is saved, this is a term that the disk has reached: whatever a snapshot
or the head of a log stands for, in memory or on disk, was chosen in a term up to the durable one.
The log of every leader of such a term or a later one starts with it.
-/

namespace CquptRaft

open Replication Voting

variable {σ : Type} {sm : IStateMachine σ} {cfg : ClusterConfig} {H H' : History NodeId LogRecord}
  {members : Finset NodeId}

/-! ## Heads of logs -/

/-- What the first record of a log stands for was chosen in a term up to `t`. -/
def KnownHead (H : History NodeId LogRecord) (members : Finset NodeId) (t : Nat)
    (log : List LogRecord) : Prop :=
  ∀ r ∈ log.head?, Held H members t r.index r.term

theorem Held.zero (t : Nat) : Held H members t 0 0 := ⟨[], rfl, rfl, .inl rfl⟩

theorem KnownHead.mono_term {t t' : Nat} {log : List LogRecord} (h : KnownHead H members t log)
    (ht : t ≤ t') : KnownHead H members t' log := fun r hr => (h r hr).mono_term ht

theorem KnownHead.mono {t : Nat} {log : List LogRecord} (h : KnownHead H members t log)
    (hH : H.Valid members LogRecord.term) (hext : History.Extends H H') :
    KnownHead H' members t log := fun r hr => (h r hr).mono hH hext

/-- The prefix of a sound replica with this last record was chosen in a term up to `t`. -/
theorem Held.chosenBy {q : NodeId} {r : Replica LogRecord} {t index : Nat}
    (hheld : Held H members t index (termAt LogRecord.term r.log index))
    (h : Sound H members LogRecord.term q r) (hH : H.Valid members LogRecord.term)
    (hindex : index ≤ r.commit) : H.ChosenBy members t (r.log.take index) := by
  obtain ⟨π, hlen, -, hπ⟩ := hheld
  have hlength : (r.log.take index).length = index := by
    rw [List.length_take, min_eq_left (hindex.trans h.commit_le)]
  have hchosen : H.Chosen members (r.log.take index) := h.chosen.of_le (take_le_take hindex)
  have hle := (hH.chosen_comparable hchosen hπ.chosen).le (by omega)
  exact hπ.of_le hle

/-- What a node has committed was chosen in a term up to its own, as soon as this is so for its
boundary. -/
theorem NodeInv.chosenBy_commit {q : NodeId} {n : RaftNode} {mem dur : Replica LogRecord}
    (h : NodeInv H members q n mem dur) (hH : H.Valid members LogRecord.term)
    (hhead : KnownHead H members mem.term n.log) {index : Nat} (hindex : index ≤ mem.commit) :
    H.ChosenBy members mem.term (mem.log.take index) := by
  have hcommit : H.ChosenBy members mem.term (mem.log.take mem.commit) := by
    rcases h.memSound.committed with heq | hch
    · have hheld := hhead _ h.represents.stores.head?
      rw [headRecord_index, headRecord_term] at hheld
      rw [heq]
      exact hheld.chosenBy h.memSound hH h.memSound.snap_le
    · exact hch
  exact hcommit.of_le (take_le_take hindex)

theorem NodeInv.held_commit {q : NodeId} {n : RaftNode} {mem dur : Replica LogRecord}
    (h : NodeInv H members q n mem dur) (hH : H.Valid members LogRecord.term)
    (hhead : KnownHead H members mem.term n.log) {index : Nat} (hindex : index ≤ mem.commit) :
    Held H members mem.term index (termAt LogRecord.term mem.log index) := by
  refine ⟨mem.log.take index, ?_, termAt_take _ le_rfl, h.chosenBy_commit hH hhead hindex⟩
  rw [List.length_take, min_eq_left (hindex.trans h.memSound.commit_le)]

/-! ## Sections -/

/-- The boundary that a section may bring into the log. -/
def Call.boundary {Image : Type} : Call Image → Option (Nat × Nat)
  | .installFinish request _ _ => some (request.lastIncludedIndex, request.lastIncludedTerm)
  | .compactAfterSnapshot index term _ => some (index, term)
  | _ => none

namespace RaftNode

theorem compactLogPrefixLocked_head {n : RaftNode} {index term : Nat} {r : LogRecord}
    (hr : r ∈ (n.compactLogPrefixLocked index term).log.head?) :
    r ∈ n.log.head? ∨ (index, term) = (r.index, r.term) := by
  grind [compactLogPrefixLocked, restoreLogAfterSnapshotLocked]

theorem recover_head {id : NodeId} {peers : List NodeId} {storage : Option PersistentRaftState}
    {r : LogRecord} (hr : r ∈ (recover id peers storage).log.head?) :
    r = bootstrapRecord ∨ ∃ state ∈ storage, r ∈ state.log.head? := by
  cases storage with
  | none => exact .inl (Option.some.inj hr).symm
  | some state =>
    by_cases hlog : state.log = []
    · have hempty : (clampRecoveredHardState state).log = [] := hlog
      simp only [recover, Option.map_some, if_pos hempty] at hr
      exact .inl (Option.some.inj hr).symm
    · have hne : (clampRecoveredHardState state).log ≠ [] := hlog
      simp only [recover, Option.map_some, if_neg hne] at hr
      exact .inr ⟨state, rfl, hr⟩

/-- A log begins as before, or with the boundary of the section. -/
theorem call_head {Image : Type} {n : RaftNode} (h : LogInv n) (c : Call Image) {r : LogRecord}
    (hr : r ∈ (n.call c).log.head?) :
    r ∈ n.log.head? ∨ c.boundary = some (r.index, r.term) := by
  by_cases hc : c.writesLog = false
  · rw [(n.call_sameLog c hc).1] at hr
    exact .inl hr
  cases c with
  | appendLocalLogUnlocked commandData saved =>
    obtain ⟨first, rest, hlog⟩ := List.exists_cons_of_ne_nil h.nonempty
    left
    cases saved with
    | false => exact hr
    | true => simpa [call, appendLocalLogUnlocked, hlog] using hr
  | onAppendEntries request termSaved logSaved commitSaved =>
    rw [call, (onAppendEntries_head h request termSaved logSaved commitSaved).1] at hr
    exact .inl hr
  | installFinish request response saved =>
    have hcompact := @compactLogPrefixLocked_head n request.lastIncludedIndex
      request.lastIncludedTerm r
    grind [call, installFinish, adoptSnapshotLocked, persistStateLocked, Call.boundary]
  | compactAfterSnapshot index term saved =>
    have hcompact := @compactLogPrefixLocked_head n index term r
    grind [call, compactAfterSnapshot, persistStateLocked, Call.boundary]
  | _ => exact absurd rfl hc

end RaftNode

/-- The snapshots of a directory are those from before, and what the worker or a handler saves. -/
theorem act_snapshots {id : NodeId} {net : List (Message sm.Image)} {m m' : Member σ sm.Image}
    {action : Action} {outbox : Member.Outbox sm.Image}
    (h : act sm cfg id net m action = some (m', outbox)) {s : Snapshot sm.Image}
    (hs : s ∈ m'.snapshots) :
    s ∈ m.snapshots ∨ (∃ image, m.worker = .captured s.index s.term image) ∨
      ∃ handler ∈ m.installs, handler.request.lastIncludedIndex = s.index ∧
        handler.request.lastIncludedTerm = s.term := by
  by_cases hother : action.appliesState = false
  · rw [(act_unrelated hother h).same.snapshots] at hs
    exact .inl hs
  cases action with
  | restart _ _ _ => cases h
  | crash =>
    cases h
    exact .inl hs
  | prune upto =>
    cases h
    exact .inl (pruneSnapshots_mem hs)
  | applyAcquire | onSnapshotTimer => grind [act]
  | proposal k step =>
    obtain ⟨m₁, hmoved, heq⟩ := Option.map_eq_some_iff.mp h
    cases heq
    obtain ⟨p, node, phase, -, -, rfl⟩ := Member.proposal_cases hmoved
    exact .inl hs
  | sendSnapshot _ => grind [act, Member.sendSnapshot, Member.setReplicator]
  | onInstallSnapshot _ _ =>
    obtain ⟨message, -, h⟩ := Option.bind_eq_some_iff.mp h
    grind [Member.deliverInstallSnapshot, Member.onInstallSnapshot]
  | installWrite _ _ => grind [act, Member.installWrite, Member.advanceInstall, Member.failInstall]
  | installSave k outcome =>
    simp only [act, Member.installSave] at h
    split at h
    · rename_i handler hk
      have hsaved := @saveSnapshotFile_mem _ m.snapshots m.installTemp
        handler.request.lastIncludedIndex handler.request.lastIncludedTerm outcome s
      have hmem := List.mem_of_getElem? hk
      grind [Member.advanceInstall, Member.failInstall]
    · cases h
  | installLoad _ _ => grind [act, Member.installLoad, Member.failInstall]
  | installFinish _ => grind [act, Member.installFinish]
  | applyPick => grind [act, Member.applyPick]
  | applyRun => grind [act, Member.applyRun]
  | applyFinish _ => grind [act, Member.applyFinish]
  | workerCapture _ => grind [act, Member.workerCapture]
  | workerSave outcome =>
    obtain ⟨m₁, hmoved, heq⟩ := Option.map_eq_some_iff.mp h
    cases heq
    unfold Member.workerSave at hmoved
    split at hmoved
    · rename_i index term image hworker
      have hsaved := @saveSnapshotFile_mem _ m.snapshots (some image) index term outcome s
      grind
    · cases hmoved
  | workerCompact _ => grind [act, Member.workerCompact]
  | _ => exact absurd rfl hother

/-! ## Members -/

/-- Every boundary of the member is of a prefix chosen in a term that its disk has reached. -/
structure KnownMember {Image : Type} (H : History NodeId LogRecord) (members : Finset NodeId)
    (m : Member σ Image) : Prop where
  term : m.up = true → TermInv m
  snapshots : ∀ s ∈ m.snapshots, Held H members m.node.durableTerm s.index s.term
  memory : m.up = true → KnownHead H members m.node.durableTerm m.node.log
  disk : ∀ state ∈ m.node.storage, KnownHead H members m.node.durableTerm state.log

theorem KnownMember.mono {Image : Type} {m : Member σ Image} (h : KnownMember H members m)
    (hH : H.Valid members LogRecord.term) (hext : History.Extends H H') :
    KnownMember H' members m where
  term := h.term
  snapshots s hs := (h.snapshots s hs).mono hH hext
  memory hup := (h.memory hup).mono hH hext
  disk state hstate := (h.disk state hstate).mono hH hext

/-- What a running process knows about the boundaries that its threads carry. -/
theorem KnownMember.held_boundary {Image : Type} {id : NodeId} {net : List (Message Image)}
    {m : Member σ Image} {mem dur : Replica LogRecord} {action : Action} {c : Call Image}
    {index term : Nat} (h : KnownMember H members m) (hup : m.up = true)
    (hp : ProcessInv H members id m mem dur) (hH : H.Valid members LogRecord.term)
    (hgrounded : c.Grounded net m action) (hc : c.boundary = some (index, term)) :
    Held H members m.node.durableTerm index term := by
  have hterm : m.node.durableTerm = mem.term := by
    rw [← (h.term hup).durable, hp.node.represents.term]
  have hmemory := h.memory hup
  rw [hterm] at hmemory ⊢
  cases c with
  | installFinish request response saved =>
    obtain ⟨handler, hlock, rfl, -⟩ := hgrounded
    have happly := hp.apply
    rw [hlock] at happly
    cases hc
    exact happly.held.mono_term happly.term_le
  | compactAfterSnapshot index' term' saved =>
    have hworker := hp.worker
    rw [show m.worker = .saved index' term' from hgrounded] at hworker
    obtain ⟨hindex, hterm'⟩ := hworker
    cases hc
    rw [hterm']
    exact hp.node.held_commit hH hmemory hindex
  | _ => cases hc

/-- A new snapshot is of a prefix chosen in the term of the process. -/
theorem KnownMember.held_snapshot {id : NodeId} {net : List (Message sm.Image)}
    {m m' : Member σ sm.Image} {mem dur : Replica LogRecord} {action : Action}
    {outbox : Member.Outbox sm.Image} (h : KnownMember H members m) (hup : m.up = true)
    (hp : ProcessInv H members id m mem dur) (hH : H.Valid members LogRecord.term)
    (hstep : act sm cfg id net m action = some (m', outbox)) {s : Snapshot sm.Image}
    (hs : s ∈ m'.snapshots) : Held H members m.node.durableTerm s.index s.term := by
  have hterm : m.node.durableTerm = mem.term := by
    rw [← (h.term hup).durable, hp.node.represents.term]
  rcases act_snapshots hstep hs with hold | ⟨image, hworker⟩ | ⟨handler, hmem, hindex, hlast⟩
  · exact h.snapshots s hold
  · have hcaptured := hp.worker
    rw [hworker] at hcaptured
    have hmemory := h.memory hup
    rw [hterm] at hmemory ⊢
    rw [hcaptured.2]
    exact hp.node.held_commit hH hmemory hcaptured.1
  · have hhandler := hp.installs handler hmem
    rw [hterm, ← hindex, ← hlast]
    exact hhandler.held.mono_term hhandler.term_le

theorem KnownMember.act {id : NodeId} {net : List (Message sm.Image)} {m m' : Member σ sm.Image}
    {mem dur : Replica LogRecord} {action : Action} {outbox : Member.Outbox sm.Image}
    (h : KnownMember H members m) (hup : m.up = true) (hp : ProcessInv H members id m mem dur)
    (hH : H.Valid members LogRecord.term) (hsaves : SavesTerm net m action)
    (hstep : act sm cfg id net m action = some (m', outbox)) :
    KnownMember H members m' ∧ m.node.durableTerm ≤ m'.node.durableTerm := by
  have hinv := h.term hup
  have hterms := hinv.act hsaves hstep
  have hdurable := hterms.kept.durable hinv.durable
  have hmono : m.node.durableTerm ≤ m'.node.durableTerm := by
    rw [← hinv.durable, ← hdurable]
    exact hterms.kept.mono
  have hmemory : KnownHead H members m.node.durableTerm m'.node.log := by
    rcases act_call hstep with hsame | ⟨-, c, hcall, hgrounded⟩
    · rw [hsame]
      exact h.memory hup
    · intro r hr
      rw [hcall] at hr
      rcases RaftNode.call_head hp.node.represents.logInv c hr with hold | hnew
      · exact h.memory hup r hold
      · exact h.held_boundary hup hp hH hgrounded hnew
  refine ⟨⟨fun _ => ⟨hdurable, hterms.replicators, hterms.installs⟩, fun s hs => ?_,
    fun _ => hmemory.mono_term hmono, fun state hstate => ?_⟩, hmono⟩
  · exact (h.held_snapshot hup hp hH hstep hs).mono_term hmono
  · refine KnownHead.mono_term ?_ hmono
    rcases act_call hstep with hsame | ⟨-, c, hcall, hgrounded⟩
    · rw [hsame] at hstate
      exact h.disk state hstate
    · have hsaved := RaftNode.call_saves m.node c hp.node.represents.logInv
      rw [← hcall] at hsaved
      rcases hsaved.storage with hsame | ⟨state', hstate', -, hlog⟩
      · rw [hsame] at hstate
        exact h.disk state hstate
      · obtain rfl : state' = state := Option.some.inj (hstate'.symm.trans hstate)
        rcases hlog with hlog | ⟨hlog, -⟩ <;> rw [hlog]
        · exact h.memory hup
        · exact hmemory

/-! ## Restarts -/

/-- The log of a node that a restart constructs is the one on the disk, or this one behind the
first snapshot that can be loaded. What the restart saves is this log again. -/
structure RaftNode.Recovered (sm : IStateMachine σ) (n₀ : RaftNode) (config : SnapshotConfig)
    (dir : List (Snapshot sm.Image)) (readable : Nat → Bool) (n : RaftNode) : Prop where
  log : (config.enabled = false ∨ config.loadOnStartup = false ∨
      firstLoadable sm readable (listSnapshots dir) = none) ∧ n.log = n₀.log ∧
      n.lastSnapshotIndex = n₀.lastSnapshotIndex ∨
    ∃ s kv, firstLoadable sm readable (listSnapshots dir) = some (s, kv) ∧
      n.log = (n₀.compactLogPrefixLocked s.index s.term).log ∧
      n.lastSnapshotIndex = (n₀.compactLogPrefixLocked s.index s.term).lastSnapshotIndex
  storage : n.storage = n₀.storage ∨ ∃ state, n.storage = some state ∧ state.log = n.log

theorem RaftNode.Recovered.load {n₀ n : RaftNode} {config : SnapshotConfig}
    {dir : List (Snapshot sm.Image)} {readable : Nat → Bool} {saved : Bool} {kv : σ}
    (h : loadLatestSnapshotOnStartup sm n₀ config dir readable saved = some (n, kv)) :
    Recovered sm n₀ config dir readable n := by
  unfold loadLatestSnapshotOnStartup at h
  split at h
  · rename_i hoff
    cases h
    simp only [Bool.or_eq_true, Bool.not_eq_true'] at hoff
    exact ⟨.inl ⟨hoff.imp id .inl, rfl, rfl⟩, .inl rfl⟩
  · split at h
    · rename_i hnone
      cases h
      exact ⟨.inl ⟨.inr (.inr hnone), rfl, rfl⟩, .inl rfl⟩
    · rename_i s kv' hfirst
      split at h <;> cases h
      exact ⟨.inr ⟨s, kv, hfirst, rfl, rfl⟩, .inr ⟨_, rfl, rfl⟩⟩

theorem RaftNode.Recovered.applyFinish {n₀ n : RaftNode} {config : SnapshotConfig}
    {dir : List (Snapshot sm.Image)} {readable : Nat → Bool}
    (h : Recovered sm n₀ config dir readable n) (index : Nat) (saved : Bool) :
    Recovered sm n₀ config dir readable (n.applyFinish index saved).1 := by
  unfold RaftNode.applyFinish
  split
  · cases saved with
    | false => exact ⟨h.log, h.storage⟩
    | true => exact ⟨h.log, .inr ⟨_, rfl, rfl⟩⟩
  · exact h

theorem RaftNode.Recovered.applyPick {n₀ n : RaftNode} {config : SnapshotConfig}
    {dir : List (Snapshot sm.Image)} {readable : Nat → Bool}
    (h : Recovered sm n₀ config dir readable n) :
    Recovered sm n₀ config dir readable n.applyPick.1 := by
  unfold RaftNode.applyPick
  dsimp only
  split
  · exact ⟨h.log, h.storage⟩
  · split <;> exact ⟨h.log, h.storage⟩

/-- What a restart leaves, whether its constructor throws or not. -/
theorem Member.restart_recovered (m : Member σ sm.Image) (cfg : ClusterConfig) (id : NodeId)
    (readable : Nat → Bool) (saved : Bool) (replaySaved : Nat → Bool) :
    ∃ n, RaftNode.Recovered sm (RaftNode.recover id (cfg.peers id) m.node.storage)
        (cfg.snapshot id) m.snapshots readable n ∧
      ((∃ kv, m.restart sm cfg id readable saved replaySaved = m.boot n kv) ∨
        m.restart sm cfg id readable saved replaySaved =
          { m with node := { m.node with storage := n.storage } }) ∨
    m.restart sm cfg id readable saved replaySaved = m := by
  have hinduct := m.restart_induct
    (P := RaftNode.Recovered sm (RaftNode.recover id (cfg.peers id) m.node.storage)
      (cfg.snapshot id) m.snapshots readable) cfg id readable saved replaySaved
    (fun _ _ hload => .load hload) (fun _ h => h.applyPick)
    (fun _ index saved h _ => h.applyFinish index saved)
  rcases hinduct with ⟨n, kv, hn, heq⟩ | ⟨storage, rfl | ⟨n, hn, rfl⟩, heq⟩
  · exact ⟨n, .inl ⟨hn, .inl ⟨kv, heq⟩⟩⟩
  · exact ⟨m.node, .inr heq⟩
  · exact ⟨n, .inl ⟨hn, .inr heq⟩⟩

/-- A restart finds the boundaries that its disk knows. -/
theorem KnownMember.recovered {m : Member σ sm.Image} (h : KnownMember H members m)
    {id : NodeId} {peers : List NodeId} {config : SnapshotConfig} {readable : Nat → Bool}
    {n : RaftNode} (hn : RaftNode.Recovered sm (RaftNode.recover id peers m.node.storage) config
      m.snapshots readable n) :
    KnownHead H members m.node.durableTerm n.log ∧
      ∀ state ∈ n.storage, KnownHead H members m.node.durableTerm state.log := by
  have hrecovered : KnownHead H members m.node.durableTerm
      (RaftNode.recover id peers m.node.storage).log := by
    intro r hr
    rcases RaftNode.recover_head hr with rfl | ⟨state, hstate, hr⟩
    · exact .zero _
    · exact h.disk state hstate r hr
  have hlog : KnownHead H members m.node.durableTerm n.log := by
    intro r hr
    rcases hn.log with ⟨-, hlog, -⟩ | ⟨s, kv, hfirst, hlog, -⟩ <;> rw [hlog] at hr
    · exact hrecovered r hr
    · rcases RaftNode.compactLogPrefixLocked_head hr with hold | hnew
      · exact hrecovered r hold
      · obtain ⟨hindex, hlast⟩ := Prod.mk.inj hnew
        rw [← hindex, ← hlast]
        exact h.snapshots s (mem_listSnapshots.mp (RaftNode.firstLoadable_mem hfirst).1)
  refine ⟨hlog, fun state hstate => ?_⟩
  rcases hn.storage with hsame | ⟨state', hstate', hlog'⟩
  · rw [hsame, RaftNode.recover_storage] at hstate
    exact h.disk state hstate
  · obtain rfl : state' = state := Option.some.inj (hstate'.symm.trans hstate)
    rw [hlog']
    exact hlog

theorem KnownMember.restart {m : Member σ sm.Image} (h : KnownMember H members m)
    (hdown : m.up = false) (id : NodeId) (readable : Nat → Bool) (saved : Bool)
    (replaySaved : Nat → Bool) :
    KnownMember H members (m.restart sm cfg id readable saved replaySaved) := by
  obtain ⟨hterm, hinv⟩ := m.restart_term cfg id readable saved replaySaved
  obtain ⟨n, ⟨hn, ⟨kv, heq⟩ | heq⟩ | heq⟩ :=
    m.restart_recovered cfg id readable saved replaySaved
  · obtain ⟨hlog, hstored⟩ := h.recovered hn
    refine ⟨hinv hdown, ?_, fun _ => ?_, ?_⟩ <;> rw [hterm, heq]
    · exact h.snapshots
    · exact hlog
    · exact hstored
  · refine ⟨hinv hdown, ?_, fun hup => ?_, ?_⟩
    · rw [hterm, heq]
      exact h.snapshots
    · rw [heq, hdown] at hup
      cases hup
    · rw [hterm, heq]
      exact (h.recovered hn).2
  · rw [heq]
    exact h

/-! ## Runs -/

variable (sm cfg) in
/-- Some member takes a guarded step, and saves every higher term it learns of. -/
abbrev Cluster.SavingStep : Cluster σ sm.Image → Cluster σ sm.Image → Prop :=
  Cluster.StepWhen sm cfg fun c id action =>
    c.Guarded id action ∧ SavesTerm c.net (c.members id) action

/-- The history fits, and every member knows its boundaries. -/
structure KnownInv (cfg : ClusterConfig) (H : History NodeId LogRecord)
    (c : Cluster σ sm.Image) : Prop where
  sim : SimInv cfg H c
  known : ∀ p ∈ cfg.ids, KnownMember H cfg.members (c.members p)

theorem KnownInv.init : KnownInv cfg emptyHistory (Cluster.init sm cfg) where
  sim := .init
  known p _ := by
    refine ⟨fun hup => ?_, fun s hs => ?_, fun hup => ?_, fun state hstate => ?_⟩
    · cases hup
    · cases hs
    · cases hup
    · simp [Cluster.init, Member.fresh, RaftNode.recover_storage] at hstate

theorem KnownInv.step {c c' : Cluster σ sm.Image} (h : KnownInv cfg H c)
    (hstep : Cluster.SavingStep sm cfg c c') :
    ∃ H', History.Extends H H' ∧ KnownInv cfg H' c' := by
  obtain ⟨id, action, ⟨hguard, hsaves⟩, hmoved⟩ := hstep
  obtain ⟨H', hext, hsim⟩ := h.sim.guardedStep ⟨id, action, hguard, hmoved⟩
  refine ⟨H', hext, hsim, fun p hp => ?_⟩
  obtain ⟨hid, m, outbox, hm, rfl⟩ := Cluster.step_cases hmoved
  by_cases hpid : p = id
  · subst hpid
    simp only [Function.update_self]
    rcases memberStep_cases hm with ⟨hup, hm⟩ | ⟨hdown, -, _, _, _, -, rfl⟩
    · obtain ⟨mem, dur, hprocess⟩ := h.sim.process hp hup
      exact ((h.known p hp).act hup hprocess h.sim.valid hsaves hm).1.mono h.sim.valid hext
    · exact ((h.known p hp).restart hdown p _ _ _).mono h.sim.valid hext
  · simp only [Function.update_of_ne hpid]
    exact (h.known p hp).mono h.sim.valid hext

theorem KnownInv.run {c c' : Cluster σ sm.Image} (h : KnownInv cfg H c)
    (hrun : Relation.ReflTransGen (Cluster.SavingStep sm cfg) c c') :
    ∃ H', History.Extends H H' ∧ KnownInv cfg H' c' := by
  induction hrun with
  | refl => exact ⟨H, .refl H, h⟩
  | tail _ hstep ih =>
    obtain ⟨H₁, hext₁, h₁⟩ := ih
    obtain ⟨H₂, hext₂, h₂⟩ := h₁.step hstep
    exact ⟨H₂, hext₁.trans hext₂, h₂⟩

end CquptRaft
