import CquptRaft.Node.Replicas

/-!
# Recovery of the state machine

The constructor loads the newest snapshot it can and applies the committed records behind it.
The records it applies start behind the head of the durable log, which may be later than the
snapshot: then the records between the two are left out.
-/

namespace CquptRaft

open Replication

variable {σ : Type} {sm : IStateMachine σ}

/-! ## Replay -/

/-- The commands of the committed records behind index `i`. -/
def Replica.commandsFrom (r : Replica LogRecord) (i : Nat) : List Bytes :=
  ((r.log.take r.commit).drop i).map LogRecord.command

theorem Replica.commandsFrom_of_le {r : Replica LogRecord} {i : Nat} (h : r.commit ≤ i) :
    Replica.commandsFrom r i = [] := by
  rw [commandsFrom, List.drop_eq_nil_of_le, List.map_nil]
  rw [List.length_take]
  omega

theorem Replica.commandsFrom_of_lt {r : Replica LogRecord} {i : Nat} (h : i < r.commit)
    (hlen : r.commit ≤ r.log.length) : ∃ record, r.log[i]? = some record ∧
      Replica.commandsFrom r i = record.command :: Replica.commandsFrom r (i + 1) := by
  have hi : i < r.log.length := by omega
  refine ⟨r.log[i], List.getElem?_eq_getElem hi, ?_⟩
  have hlt : i < (r.log.take r.commit).length := by
    rw [List.length_take]
    omega
  rw [commandsFrom, List.drop_eq_getElem_cons hlt, List.getElem_take, List.map_cons, commandsFrom]

namespace Represents

variable {n : RaftNode} {mem : Replica LogRecord}

/-- What a pass of `ApplyCommittedEntries` picks. -/
theorem applyPick_eq (h : Represents n mem) (hlen : mem.commit ≤ mem.log.length) :
    n.applyPick = ({ n with lastApplied := max n.lastApplied mem.snap },
      if mem.commit ≤ max n.lastApplied mem.snap then .nothing
      else .entry (max n.lastApplied mem.snap + 1)
        ((mem.log[max n.lastApplied mem.snap]?).elim [] LogRecord.command)) := by
  have hrep : Represents { n with lastApplied := max n.lastApplied n.lastSnapshotIndex } mem :=
    h.congr rfl rfl rfl rfl rfl
  rw [← h.snapIndex, ← h.commit]
  simp only [RaftNode.applyPick]
  split
  · rfl
  · rename_i hlt
    rw [h.commit] at hlt
    rw [hrep.logAtIndexLocked (by rw [h.snapIndex]; omega) (by omega), Nat.add_sub_cancel,
      List.getElem?_eq_getElem (by omega)]
    rfl

theorem applyFinish (h : Represents n mem) (index : Nat) (saved : Bool) :
    Represents (n.applyFinish index saved).1 mem := by
  unfold RaftNode.applyFinish
  split
  · cases saved <;> exact h.congr rfl rfl rfl rfl rfl
  · exact h

end Represents

/-- What `ApplyCommittedEntries` in the constructor computes: the committed commands behind the
apply index and the snapshot, in order. -/
theorem RaftNode.replayCommittedEntries_spec (sm : IStateMachine σ) {mem : Replica LogRecord}
    (hlen : mem.commit ≤ mem.log.length) (saved : Nat → Bool) (fuel : Nat) :
    ∀ (n : RaftNode) (kv : σ), Represents n mem → n.lastApplied ≤ mem.commit →
      mem.snap ≤ mem.commit → mem.commit < max n.lastApplied mem.snap + fuel →
      let result := replayCommittedEntries sm saved fuel n kv
      let commands := Replica.commandsFrom mem (max n.lastApplied mem.snap)
      (result.2.2 = true → result.1.lastApplied = mem.commit ∧
        sm.applyAll kv commands = some result.2.1) ∧
      ((∀ i, saved i = true) → ∀ kv', sm.applyAll kv commands = some kv' →
        result.2.2 = true) := by
  induction fuel with
  | zero =>
    intro n kv _ _ _ hfuel
    omega
  | succ fuel ih =>
    intro n kv h happlied hsnap hfuel
    rw [replayCommittedEntries, h.applyPick_eq hlen]
    by_cases hdone : mem.commit ≤ max n.lastApplied mem.snap
    · simp only [hdone, if_true, Replica.commandsFrom_of_le hdone, IStateMachine.applyAll_nil,
        implies_true, and_true, true_implies]
      omega
    · obtain ⟨record, hrecord, hcommands⟩ :=
        Replica.commandsFrom_of_lt (not_le.mp hdone) hlen
      simp only [hdone, if_false, hrecord, Option.elim_some, hcommands,
        IStateMachine.applyAll_cons]
      cases happly : sm.apply kv record.command with
      | error message => simp [Except.toOption]
      | ok kv₁ =>
        simp only [Except.toOption, Option.bind_some]
        -- one entry further on, the rest is the same replay
        set n₁ : RaftNode := { n with lastApplied := max n.lastApplied mem.snap } with hn₁
        have hrep : Represents n₁ mem := h.congr rfl rfl rfl rfl rfl
        have hlt : n₁.lastApplied < max n.lastApplied mem.snap + 1 := Nat.lt_succ_self _
        have happlied' : (n₁.applyFinish (max n.lastApplied mem.snap + 1)
            (saved (max n.lastApplied mem.snap + 1))).1.lastApplied =
            max n.lastApplied mem.snap + 1 := by
          simp [applyFinish, hlt]
        have hgoes : (n₁.applyFinish (max n.lastApplied mem.snap + 1)
            (saved (max n.lastApplied mem.snap + 1))).2 =
            saved (max n.lastApplied mem.snap + 1) := by
          simp [applyFinish, hlt]
        have hrep' := hrep.applyFinish (max n.lastApplied mem.snap + 1)
          (saved (max n.lastApplied mem.snap + 1))
        generalize n₁.applyFinish (max n.lastApplied mem.snap + 1)
          (saved (max n.lastApplied mem.snap + 1)) = finished at happlied' hgoes hrep' ⊢
        obtain ⟨n₂, goesOn⟩ := finished
        simp only at happlied' hgoes hrep' ⊢
        cases goesOn with
        | false =>
          refine ⟨fun hc => absurd hc (by simp), fun hsaved => ?_⟩
          rw [hsaved] at hgoes
          cases hgoes
        | true =>
          have hmax : max n₂.lastApplied mem.snap = max n.lastApplied mem.snap + 1 := by omega
          have hrest := ih n₂ kv₁ hrep' (by omega) hsnap (by omega)
          rw [hmax] at hrest
          exact hrest

/-! ## The constructor -/

namespace RaftNode

/-- The snapshot that the constructor loads. -/
def loadedSnapshot (sm : IStateMachine σ) (config : SnapshotConfig)
    (dir : List (Snapshot sm.Image)) (readable : Nat → Bool) : Option (Snapshot sm.Image × σ) :=
  if !config.enabled || !config.loadOnStartup then none
  else firstLoadable sm readable (listSnapshots dir)

/-- The index of the snapshot that the constructor loads, `0` when there is none. -/
def loadedIndex (sm : IStateMachine σ) (config : SnapshotConfig) (dir : List (Snapshot sm.Image))
    (readable : Nat → Bool) : Nat :=
  (loadedSnapshot sm config dir readable).elim 0 fun loaded => loaded.1.index

theorem loadLatestSnapshotOnStartup_eq (n : RaftNode) (config : SnapshotConfig)
    (dir : List (Snapshot sm.Image)) (readable : Nat → Bool) (saved : Bool) :
    loadLatestSnapshotOnStartup sm n config dir readable saved =
      match loadedSnapshot sm config dir readable with
      | none => some (n, sm.initial)
      | some (s, kv) =>
        if saved then
          let m := n.compactLogPrefixLocked s.index s.term
          some ({ m with
            commitIndex := max m.commitIndex s.index
            lastApplied := s.index }.persistStateLocked true, kv)
        else none := by
  unfold loadLatestSnapshotOnStartup loadedSnapshot
  split <;> rfl

theorem loadedSnapshot_mem {config : SnapshotConfig} {dir : List (Snapshot sm.Image)}
    {readable : Nat → Bool} {s : Snapshot sm.Image} {kv : σ}
    (h : loadedSnapshot sm config dir readable = some (s, kv)) :
    s ∈ dir ∧ sm.loadSnapshot s.image = some kv := by
  unfold loadedSnapshot at h
  split at h
  · cases h
  · obtain ⟨hmem, hload⟩ := firstLoadable_mem h
    exact ⟨mem_listSnapshots.mp hmem, hload⟩

end RaftNode

/-- The snapshot is one of the first entries of `π`, all applied. -/
structure Snapshot.Of (sm : IStateMachine σ) (π : List LogRecord) (s : Snapshot sm.Image) :
    Prop where
  index_le : s.index ≤ π.length
  term : s.term = termAt LogRecord.term π s.index
  image : ∃ kv, sm.loadSnapshot s.image = some kv ∧
    sm.applyAll sm.initial ((π.take s.index).map LogRecord.command) = some kv

section Construct

variable {π : List LogRecord} {dur : Replica LogRecord} {storage : Option PersistentRaftState}
  {config : SnapshotConfig} {dir : List (Snapshot sm.Image)} {readable : Nat → Bool} {saved : Bool}

/-- The node behind `LoadLatestSnapshotOnStartup`, over a durable log that has committed a prefix
of `π`: either the snapshot is beyond all that is committed, or the log is kept. -/
structure Loaded (sm : IStateMachine σ) (π : List LogRecord) (dur : Replica LogRecord) (i : Nat)
    (n : RaftNode) (kv : σ) : Prop where
  applied : n.lastApplied = i
  state : sm.applyAll sm.initial ((π.take i).map LogRecord.command) = some kv
  log : dur.commit < i ∧ n.commitIndex = i ∨ i ≤ dur.commit ∧ ∃ mem, Represents n mem ∧
    mem.log = dur.log ∧ mem.commit = dur.commit ∧ mem.snap = max dur.snap i

theorem Loaded.of_snapshot (hdur : Durable storage dur) (hlen : dur.commit ≤ dur.log.length)
    (hsnap : dur.snap ≤ dur.commit) (hπ : dur.log.take dur.commit <+: π) {s : Snapshot sm.Image}
    {kv : σ} (hs : s.Of sm π) (hkv : sm.loadSnapshot s.image = some kv) (id : NodeId)
    (peers : List NodeId) :
    let m := (RaftNode.recover id peers storage).compactLogPrefixLocked s.index s.term
    Loaded sm π dur s.index ({ m with
      commitIndex := max m.commitIndex s.index
      lastApplied := s.index }.persistStateLocked true) kv := by
  have hrep := hdur.represents_recover hlen id peers
  obtain ⟨hindex, hterm, kv', hload, happly⟩ := hs
  obtain rfl : kv' = kv := Option.some.inj (hload.symm.trans hkv)
  refine ⟨rfl, happly, ?_⟩
  by_cases hle : s.index ≤ dur.snap
  · right
    rw [hrep.compactLogPrefixLocked_of_le hle]
    refine ⟨hle.trans hsnap, dur, ⟨hrep.term, ?_, hrep.snapIndex, hrep.snapTerm, hrep.stores⟩, rfl,
      rfl, (max_eq_left hle).symm⟩
    simp only [RaftNode.persistStateLocked_commitIndex, hrep.commit]
    omega
  · by_cases hcommit : s.index ≤ dur.commit
    · -- the snapshot is of a prefix of the durable log
      right
      have hsplit : π.take s.index = dur.log.take s.index := by
        rw [← take_eq_of_le hπ (by rw [List.length_take]; omega), List.take_take,
          min_eq_left hcommit]
      have hlength : (π.take s.index).length = s.index := by
        rw [List.length_take]
        omega
      have hcompact := hrep.compactLogPrefixLocked_of_prefix_le
        (hsplit ▸ take_le dur.log s.index) (by omega)
      rw [hlength, termAt_take LogRecord.term le_rfl, ← hterm] at hcompact
      refine ⟨hcommit, ⟨dur.term, dur.log, s.index, max dur.commit s.index⟩,
        ⟨hcompact.term, ?_, hcompact.snapIndex, hcompact.snapTerm, hcompact.stores⟩, rfl,
        max_eq_left hcommit, by simp only; omega⟩
      simp only [RaftNode.persistStateLocked_commitIndex, hcompact.commit]
      omega
    · left
      refine ⟨not_le.mp hcommit, ?_⟩
      simp only [RaftNode.persistStateLocked_commitIndex, RaftNode.compactLogPrefixLocked,
        RaftNode.restoreLogAfterSnapshotLocked]
      rw [hrep.commit]
      split
      · rw [hrep.commit]
        omega
      · simp only
        omega

theorem Loaded.of_none (hdur : Durable storage dur) (hlen : dur.commit ≤ dur.log.length)
    (id : NodeId) (peers : List NodeId) :
    Loaded sm π dur 0 (RaftNode.recover id peers storage) sm.initial :=
  ⟨RaftNode.recover_lastApplied _ _ _, rfl, .inr ⟨Nat.zero_le _, dur,
    hdur.represents_recover hlen id peers, rfl, rfl, (max_eq_left (Nat.zero_le _)).symm⟩⟩

/-- The commands that the constructor has applied in the end: those of the snapshot, and those
behind both the snapshot and the head of the durable log. -/
def recoveredCommands (π : List LogRecord) (dur : Replica LogRecord) (i : Nat) : List Bytes :=
  (π.take i ++ (π.take dur.commit).drop (max dur.snap i)).map LogRecord.command

theorem recoveredCommands_of_commit_le {i : Nat} (h : dur.commit ≤ i) :
    recoveredCommands π dur i = (π.take i).map LogRecord.command := by
  rw [recoveredCommands, List.drop_eq_nil_of_le, List.append_nil]
  rw [List.length_take]
  omega

/-- Nothing is left out when the snapshot reaches the head of the durable log. -/
theorem recoveredCommands_of_snap_le {i : Nat} (h : dur.snap ≤ i) :
    recoveredCommands π dur i = (π.take (max dur.commit i)).map LogRecord.command := by
  by_cases hle : dur.commit ≤ i
  · rw [recoveredCommands_of_commit_le hle, max_eq_right hle]
  · have hmin : min i dur.commit = i := by omega
    have hsplit := List.take_append_drop i (π.take dur.commit)
    rw [List.take_take, hmin] at hsplit
    rw [recoveredCommands, max_eq_right h, max_eq_left (by omega), hsplit]

/-- What the constructor does behind the load. -/
theorem Loaded.construct {i : Nat} {n : RaftNode} {kv : σ} (h : Loaded sm π dur i n kv)
    (hlen : dur.commit ≤ dur.log.length) (hsnap : dur.snap ≤ dur.commit)
    (hπ : dur.log.take dur.commit <+: π) (replaySaved : Nat → Bool) :
    let result := RaftNode.replayCommittedEntries sm replaySaved (n.commitIndex + 1) n kv
    if n.lastApplied < n.commitIndex then
      (result.2.2 = true → result.1.lastApplied = max dur.commit i ∧
        sm.applyAll sm.initial (recoveredCommands π dur i) = some result.2.1) ∧
      ((∀ i, replaySaved i = true) → ∀ kv',
        sm.applyAll sm.initial (recoveredCommands π dur i) = some kv' → result.2.2 = true)
    else n.lastApplied = max dur.commit i ∧
      sm.applyAll sm.initial (recoveredCommands π dur i) = some kv := by
  obtain ⟨happlied, hstate, ⟨hlt, hcommit⟩ | ⟨hle, mem, hrep, hlog, hcommit, hmemSnap⟩⟩ := h
  · simp only [happlied, hcommit, lt_irrefl, if_false, recoveredCommands_of_commit_le hlt.le]
    exact ⟨by omega, hstate⟩
  · have hcommitIndex := hrep.commit.trans hcommit
    simp only [happlied, hcommitIndex]
    split
    · rename_i hlt
      have hmemLen : mem.commit ≤ mem.log.length := by rwa [hcommit, hlog]
      have hspec := RaftNode.replayCommittedEntries_spec sm hmemLen replaySaved (dur.commit + 1) n
        kv hrep (by omega) (by omega) (by omega)
      have hstart : max n.lastApplied mem.snap = max dur.snap i := by omega
      have hcommands : sm.applyAll sm.initial (recoveredCommands π dur i) =
          sm.applyAll kv (Replica.commandsFrom mem (max dur.snap i)) := by
        have htake : π.take dur.commit = dur.log.take dur.commit := by
          rw [← take_eq_of_le hπ (by rw [List.length_take]; omega), List.take_take, min_self]
        rw [recoveredCommands, List.map_append, IStateMachine.applyAll_append, hstate,
          Option.bind_some, Replica.commandsFrom, hlog, hcommit, htake]
      rw [hstart] at hspec
      rw [hcommands, max_eq_left hle, ← hcommit]
      rw [← hcommit] at hspec
      exact hspec
    · rename_i hge
      obtain rfl : i = dur.commit := by omega
      rw [recoveredCommands_of_commit_le le_rfl, max_self]
      exact ⟨rfl, hstate⟩

/-- A constructor that does not throw has applied exactly the recovered commands, and it does
not throw when every `Save` succeeds and the commands can be applied. -/
theorem construct_spec (hdur : Durable storage dur) (hlen : dur.commit ≤ dur.log.length)
    (hsnap : dur.snap ≤ dur.commit) (hπ : dur.log.take dur.commit <+: π)
    (hdir : ∀ s kv, RaftNode.loadedSnapshot sm config dir readable = some (s, kv) → s.Of sm π)
    (id : NodeId) (peers : List NodeId) (saved : Bool) (replaySaved : Nat → Bool) :
    let i := RaftNode.loadedIndex sm config dir readable
    let result := RaftNode.construct sm id peers storage config dir readable saved replaySaved
    (∀ n kv, result = .ready n kv → n.lastApplied = max dur.commit i ∧
      sm.applyAll sm.initial (recoveredCommands π dur i) = some kv) ∧
    (saved = true → (∀ i, replaySaved i = true) → ∀ kv,
      sm.applyAll sm.initial (recoveredCommands π dur i) = some kv →
      ∃ n, result = .ready n kv ∧ n.lastApplied = max dur.commit i) := by
  have hready : ∀ i n kv, Loaded sm π dur i n kv →
      RaftNode.loadLatestSnapshotOnStartup sm (RaftNode.recover id peers storage) config dir
        readable saved = some (n, kv) →
      let result := RaftNode.construct sm id peers storage config dir readable saved replaySaved
      (∀ n kv, result = .ready n kv → n.lastApplied = max dur.commit i ∧
        sm.applyAll sm.initial (recoveredCommands π dur i) = some kv) ∧
      ((∀ i, replaySaved i = true) → ∀ kv,
        sm.applyAll sm.initial (recoveredCommands π dur i) = some kv →
        ∃ n, result = .ready n kv ∧ n.lastApplied = max dur.commit i) := by
    intro i n kv h hload
    have hspec := h.construct hlen hsnap hπ replaySaved
    simp only [RaftNode.construct, hload]
    split at hspec
    · rename_i hlt
      simp only [if_pos hlt]
      generalize RaftNode.replayCommittedEntries sm replaySaved (n.commitIndex + 1) n kv = result
        at hspec ⊢
      obtain ⟨n', kv', ok⟩ := result
      cases ok with
      | false =>
        refine ⟨fun _ _ heq => (by cases heq), fun hsaved kv'' hkv => ?_⟩
        exact absurd (hspec.2 hsaved kv'' hkv) (by simp)
      | true =>
        obtain ⟨happlied, hkv'⟩ := hspec.1 rfl
        refine ⟨fun _ _ heq => ?_, fun _ kv'' hkv => ?_⟩
        · cases heq
          exact ⟨happlied, hkv'⟩
        · obtain rfl : kv' = kv'' := Option.some.inj (hkv'.symm.trans hkv)
          exact ⟨n', rfl, happlied⟩
    · rename_i hge
      simp only [if_neg hge]
      refine ⟨fun _ _ heq => ?_, fun _ kv'' hkv => ?_⟩
      · cases heq
        exact hspec
      · obtain rfl : kv = kv'' := Option.some.inj (hspec.2.symm.trans hkv)
        exact ⟨n, rfl, hspec.1⟩
  have hload := RaftNode.loadLatestSnapshotOnStartup_eq (RaftNode.recover id peers storage) config
    dir readable saved
  simp only [RaftNode.loadedIndex]
  cases hloaded : RaftNode.loadedSnapshot sm config dir readable with
  | none =>
    rw [hloaded] at hload
    have := hready 0 _ _ (.of_none hdur hlen id peers) hload
    exact ⟨this.1, fun _ => this.2⟩
  | some loaded =>
    obtain ⟨s, kv⟩ := loaded
    rw [hloaded] at hload
    simp only at hload
    cases saved with
    | false =>
      simp only [Bool.false_eq_true, if_false] at hload
      refine ⟨fun n kv heq => ?_, fun hc => absurd hc (by simp)⟩
      simp only [RaftNode.construct, hload] at heq
      cases heq
    | true =>
      have := hready s.index _ _ (.of_snapshot hdur hlen hsnap hπ (hdir s kv hloaded)
        (RaftNode.loadedSnapshot_mem hloaded).2 id peers) hload
      exact ⟨this.1, fun _ => this.2⟩

end Construct

/-! ## Committed entries are not skipped -/

/-- What a node has on disk: a log that has committed a prefix of `π`, and snapshots of
prefixes of `π`. -/
structure HoldsCommitted (sm : IStateMachine σ) (π : List LogRecord)
    (storage : Option PersistentRaftState) (dur : Replica LogRecord)
    (dir : List (Snapshot sm.Image)) : Prop where
  durable : Durable storage dur
  snap_le : dur.snap ≤ dur.commit
  commit_le : dur.commit ≤ dur.log.length
  committed : dur.log.take dur.commit <+: π
  snapshots : ∀ s ∈ dir, s.Of sm π

/-- Whether the entries between the loaded snapshot and the head of the durable log, which are
left out, make no difference at the commit index. -/
def SkipsHarmlessly (sm : IStateMachine σ) (π : List LogRecord) (dur : Replica LogRecord)
    (i : Nat) : Prop :=
  ∀ kv, sm.applyAll sm.initial
      ((π.take i ++ (π.take dur.commit).drop dur.snap).map LogRecord.command) = some kv →
    sm.applyAll sm.initial ((π.take dur.commit).map LogRecord.command) = some kv

/-- Every constructor call that does not throw has the entries up to its apply index in the state
machine, exactly when the loaded snapshot reaches the head of the durable log, or the entries
between them make no difference. -/
theorem restart_skips_nothing_iff (sm : IStateMachine σ) {π : List LogRecord}
    {storage : Option PersistentRaftState} {dur : Replica LogRecord}
    {dir : List (Snapshot sm.Image)} (h : HoldsCommitted sm π storage dur dir)
    (config : SnapshotConfig) (readable : Nat → Bool) (id : NodeId) (peers : List NodeId) :
    (∀ saved replaySaved n kv,
      RaftNode.construct sm id peers storage config dir readable saved replaySaved = .ready n kv →
      n.lastApplied ≤ π.length ∧
        sm.applyAll sm.initial ((π.take n.lastApplied).map LogRecord.command) = some kv) ↔
    dur.snap ≤ RaftNode.loadedIndex sm config dir readable ∨
      SkipsHarmlessly sm π dur (RaftNode.loadedIndex sm config dir readable) := by
  set i := RaftNode.loadedIndex sm config dir readable with hi
  have hdir : ∀ s kv, RaftNode.loadedSnapshot sm config dir readable = some (s, kv) → s.Of sm π :=
    fun s kv hs => h.snapshots s (RaftNode.loadedSnapshot_mem hs).1
  have hspec := construct_spec h.durable h.commit_le h.snap_le h.committed hdir id peers
  have hcommit : dur.commit ≤ π.length := by
    have := h.committed.length_le
    rw [List.length_take, min_eq_left h.commit_le] at this
    exact this
  have hindex : i ≤ π.length := by
    rw [hi, RaftNode.loadedIndex]
    cases hs : RaftNode.loadedSnapshot sm config dir readable with
    | none => exact Nat.zero_le _
    | some loaded => exact (hdir _ _ hs).index_le
  by_cases hsnap : dur.snap ≤ i
  · simp only [hsnap, true_or, iff_true]
    intro saved replaySaved n kv hready
    obtain ⟨happlied, hkv⟩ := (hspec saved replaySaved).1 n kv hready
    rw [← hi] at happlied
    rw [← hi, recoveredCommands_of_snap_le hsnap, ← happlied] at hkv
    exact ⟨by omega, hkv⟩
  · have hmax : max dur.commit i = dur.commit := by
      have := h.snap_le
      omega
    have hcommands : recoveredCommands π dur i =
        (π.take i ++ (π.take dur.commit).drop dur.snap).map LogRecord.command := by
      rw [recoveredCommands, max_eq_left (by omega)]
    simp only [hsnap, false_or]
    constructor
    · intro hall kv hkv
      rw [← hcommands] at hkv
      obtain ⟨n, hready, happlied⟩ := (hspec true fun _ => true).2 rfl (fun _ => rfl) kv hkv
      have := (hall _ _ n kv hready).2
      rwa [happlied, ← hi, hmax] at this
    · intro hharmless saved replaySaved n kv hready
      obtain ⟨happlied, hkv⟩ := (hspec saved replaySaved).1 n kv hready
      rw [← hi, hmax] at happlied
      rw [← hi, hcommands] at hkv
      rw [happlied]
      exact ⟨hcommit, hharmless kv hkv⟩

/-! ### Two snapshots and a compacted log -/

/-- Two writes to one key. -/
def twoWrites : List LogRecord :=
  [⟨1, 1, Command.serialize ⟨.set, ascii "k", ascii "v"⟩⟩,
    ⟨2, 1, Command.serialize ⟨.set, ascii "k", ascii "w"⟩⟩]

def mapOf (value : String) : KvMap := (∅ : KvMap).insert (ascii "k") (ascii value)

/-- Both writes are applied, the log is compacted behind them, and there is a snapshot behind
each. -/
def compactedState : PersistentRaftState where
  currentTerm := 1
  votedFor := 1
  commitIndex := 2
  lastApplied := 2
  log := [⟨2, 1, kSnapshotMarkerCommand⟩]

def twoSnapshots : List (Snapshot kvStateMachine.Image) := [⟨2, 1, mapOf "w"⟩, ⟨1, 1, mapOf "v"⟩]

theorem applyAll_firstWrite :
    kvStateMachine.applyAll kvStateMachine.initial ((twoWrites.take 1).map LogRecord.command) =
      some (mapOf "v") := by
  have hv : KvStateMachine.apply ∅ (Command.serialize ⟨.set, ascii "k", ascii "v"⟩) =
      .ok (mapOf "v") := by
    rw [KvStateMachine.apply_set (by decide) (by decide) (by decide), if_neg (by decide), mapOf]
  simp [twoWrites, IStateMachine.applyAll_cons, kvStateMachine, hv, Except.toOption]

theorem applyAll_bothWrites :
    kvStateMachine.applyAll kvStateMachine.initial ((twoWrites.take 2).map LogRecord.command) =
      some (mapOf "w") := by
  have hw : KvStateMachine.apply (mapOf "v") (Command.serialize ⟨.set, ascii "k", ascii "w"⟩) =
      .ok (mapOf "w") := by
    rw [KvStateMachine.apply_set (by decide) (by decide) (by decide), if_neg (by decide), mapOf,
      mapOf]
    refine congrArg _ (Std.ExtTreeMap.ext_getElem? fun key => ?_)
    simp only [Std.ExtTreeMap.getElem?_insert]
    split <;> rfl
  have hsplit : (twoWrites.take 2).map LogRecord.command =
      (twoWrites.take 1).map LogRecord.command ++
        [Command.serialize ⟨.set, ascii "k", ascii "w"⟩] := rfl
  rw [hsplit, IStateMachine.applyAll_append, applyAll_firstWrite, Option.bind_some]
  simp [IStateMachine.applyAll_cons, kvStateMachine, hw, Except.toOption]

theorem holdsCommitted_compactedState :
    HoldsCommitted kvStateMachine twoWrites (some compactedState) ⟨1, twoWrites, 2, 2⟩
      twoSnapshots where
  durable := by
    refine ⟨rfl, rfl, by decide, ⟨by decide, by decide, ?_⟩⟩
    intro i hi
    have : i = 0 ∨ i = 1 := by
      simp [twoWrites] at hi
      omega
    rcases this with rfl | rfl <;> rfl
  snap_le := by decide
  commit_le := by decide
  committed := List.prefix_refl _
  snapshots := by
    intro s hs
    simp only [twoSnapshots, List.mem_cons, List.not_mem_nil, or_false] at hs
    rcases hs with rfl | rfl
    · exact ⟨by decide, by decide, _, rfl, applyAll_bothWrites⟩
    · exact ⟨by decide, by decide, _, rfl, applyAll_firstWrite⟩

theorem restart_skips_nothing_iff_compacted :
    HoldsCommitted kvStateMachine twoWrites (some compactedState) ⟨1, twoWrites, 2, 2⟩
      twoSnapshots ∧
    ∀ saved replaySaved n kv,
      RaftNode.construct kvStateMachine 1 [] (some compactedState) {} twoSnapshots (fun _ => true)
        saved replaySaved = .ready n kv →
      n.lastApplied ≤ twoWrites.length ∧ kvStateMachine.applyAll kvStateMachine.initial
        ((twoWrites.take n.lastApplied).map LogRecord.command) = some kv :=
  ⟨holdsCommitted_compactedState,
    (restart_skips_nothing_iff kvStateMachine holdsCommitted_compactedState {} (fun _ => true) 1
      []).mpr (.inl (by decide))⟩

/-- With the newer snapshot unreadable the constructor loads the older one and leaves the second
write out. -/
theorem restart_skips_second_write :
    ¬ ∀ π storage dur dir, HoldsCommitted kvStateMachine π storage dur dir →
      ∀ readable saved replaySaved n kv,
        RaftNode.construct kvStateMachine 1 [] storage {} dir readable saved replaySaved =
          .ready n kv →
        n.lastApplied ≤ π.length ∧ kvStateMachine.applyAll kvStateMachine.initial
          ((π.take n.lastApplied).map LogRecord.command) = some kv := by
  intro hall
  have hready : ∃ n, RaftNode.construct kvStateMachine 1 [] (some compactedState) {} twoSnapshots
      (fun i => i != 2) true (fun _ => true) = .ready n (mapOf "v") ∧ n.lastApplied = 2 :=
    ⟨_, rfl, rfl⟩
  obtain ⟨n, hready, happlied⟩ := hready
  have hkv := (hall _ _ _ _ holdsCommitted_compactedState _ _ _ n _ hready).2
  rw [happlied, applyAll_bothWrites] at hkv
  have hget : (mapOf "w")[ascii "k"]? = (mapOf "v")[ascii "k"]? := by rw [Option.some.inj hkv]
  simp only [mapOf, Std.ExtTreeMap.getElem?_insert_self] at hget
  exact absurd hget (by decide)

end CquptRaft
