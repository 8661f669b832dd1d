import CquptRaft.Node.Replicas

/-!
# The log in memory and the log on disk

`OnAppendEntries` changes `log_` entry by entry and saves it at the end, or takes the old log back
when the `Save` fails. The exit from the middle of its loop does neither: a request with an entry
beyond the end of the log leaves in memory what the entries in front of it have written.
-/

namespace CquptRaft

namespace RaftNode

/-- The log in memory is the log of the last successful `Save`. -/
def InStep (n : RaftNode) : Prop := n.storage.map PersistentRaftState.log = some n.log

instance (n : RaftNode) : Decidable n.InStep := inferInstanceAs (Decidable (_ = _))

/-! ## What entries do to a log -/

/-- The entry is covered by the snapshot, or its index is one of the log or the next one. -/
def Joins (n : RaftNode) (entry : LogRecord) : Prop :=
  entry.index ≤ n.lastSnapshotIndex ∨ entry.index ≤ n.lastLogIndexLocked + 1

/-- A record of the same index and term stays. Else the log is cut there and the entry is put at
its end. -/
def putEntry (n : RaftNode) (entry : LogRecord) : RaftNode :=
  if entry.index ≤ n.lastSnapshotIndex then n
  else if n.hasLogAtIndexLocked entry.index then
    if (n.log[n.logOffsetLocked entry.index]?).map LogRecord.term = some entry.term then n
    else { n with log := n.log.take (n.logOffsetLocked entry.index) ++ [entry] }
  else { n with log := n.log ++ [entry] }

/-- Every entry joins the log that the entries in front of it have made. -/
def AllJoin (n : RaftNode) : List LogRecord → Prop
  | [] => True
  | entry :: rest => n.Joins entry ∧ AllJoin (n.putEntry entry) rest

/-- `entry` is the first of the entries that does not join, and the ones in front of it are
`before`. -/
def GapAt (n : RaftNode) (entries before : List LogRecord) (entry : LogRecord) : Prop :=
  (∃ rest, entries = before ++ entry :: rest) ∧ n.AllJoin before ∧
    ¬ (before.foldl putEntry n).Joins entry

variable {n : RaftNode} {entries before before' : List LogRecord} {entry entry' : LogRecord}

theorem GapAt.cons (h : (n.putEntry entry).GapAt entries before entry') (hjoin : n.Joins entry) :
    n.GapAt (entry :: entries) (entry :: before) entry' := by
  obtain ⟨⟨rest, rfl⟩, hall, hgap⟩ := h
  exact ⟨⟨rest, rfl⟩, ⟨hjoin, hall⟩, hgap⟩

theorem GapAt.unique (h : n.GapAt entries before entry) (h' : n.GapAt entries before' entry') :
    before = before' := by
  induction before generalizing n entries before' with
  | nil =>
    obtain ⟨⟨rest, rfl⟩, -, hgap⟩ := h
    obtain ⟨⟨rest', heq⟩, hall, -⟩ := h'
    cases before' with
    | nil => rfl
    | cons first before' =>
      obtain ⟨rfl, -⟩ := List.cons.inj heq
      exact absurd hall.1 hgap
  | cons first before ih =>
    obtain ⟨⟨rest, rfl⟩, ⟨hjoin, hall⟩, hgap⟩ := h
    obtain ⟨⟨rest', heq⟩, hall', hgap'⟩ := h'
    cases before' with
    | nil =>
      obtain ⟨rfl, -⟩ := List.cons.inj heq
      exact absurd hjoin hgap'
    | cons first' before' =>
      obtain ⟨rfl, htail⟩ := List.cons.inj heq
      rw [ih ⟨⟨rest, rfl⟩, hall, hgap⟩ ⟨⟨rest', htail⟩, hall'.2, hgap'⟩]

theorem AllJoin.not_gapAt (h : n.AllJoin entries) : ¬ n.GapAt entries before entry := by
  rintro ⟨⟨rest, rfl⟩, -, hgap⟩
  induction before generalizing n with
  | nil => exact hgap h.1
  | cons first before ih => exact ih h.2 hgap

/-- The nodes have the same log and the same boundary. -/
structure SameLog (m n : RaftNode) : Prop where
  log : m.log = n.log
  index : m.lastSnapshotIndex = n.lastSnapshotIndex
  term : m.lastSnapshotTerm = n.lastSnapshotTerm

namespace SameLog

variable {m : RaftNode}

theorem joins_iff (h : SameLog m n) : m.Joins entry ↔ n.Joins entry := by
  simp only [Joins, lastLogIndexLocked, h.log, h.index]

theorem hasLogAtIndexLocked (h : SameLog m n) (i : Nat) :
    m.hasLogAtIndexLocked i = n.hasLogAtIndexLocked i := by
  simp only [RaftNode.hasLogAtIndexLocked, h.log]

theorem logOffsetLocked (h : SameLog m n) (i : Nat) :
    m.logOffsetLocked i = n.logOffsetLocked i := by
  simp only [RaftNode.logOffsetLocked, firstLogIndexLocked, h.log, h.index]

theorem termAtIndexLocked (h : SameLog m n) (i : Nat) :
    m.termAtIndexLocked i = n.termAtIndexLocked i := by
  have hat := logAtIndexLocked_of_log_eq h.log h.index i
  simp only [RaftNode.termAtIndexLocked, hat, h.index, h.term]

theorem putEntry (h : SameLog m n) (entry : LogRecord) :
    SameLog (m.putEntry entry) (n.putEntry entry) := by
  simp only [RaftNode.putEntry, h.hasLogAtIndexLocked, h.logOffsetLocked, h.log, h.index]
  split
  · exact h
  · split
    · split
      · exact h
      · exact ⟨rfl, rfl, h.term⟩
    · exact ⟨rfl, rfl, h.term⟩

theorem foldl_putEntry (h : SameLog m n) (entries : List LogRecord) :
    SameLog (entries.foldl RaftNode.putEntry m) (entries.foldl RaftNode.putEntry n) := by
  induction entries generalizing m n with
  | nil => exact h
  | cons entry entries ih => exact ih (h.putEntry entry)

theorem allJoin_iff (h : SameLog m n) : m.AllJoin entries ↔ n.AllJoin entries := by
  induction entries generalizing m n with
  | nil => exact Iff.rfl
  | cons entry entries ih => exact and_congr h.joins_iff (ih (h.putEntry entry))

theorem gapAt_iff (h : SameLog m n) : m.GapAt entries before entry ↔ n.GapAt entries before entry :=
  and_congr Iff.rfl (and_congr h.allJoin_iff (h.foldl_putEntry before).joins_iff.not)

end SameLog

/-! ## The handler -/

/-- How the loop ends: at the first entry that does not join, with what the ones in front of it
have made, or behind all entries. -/
def LoopPuts (p : AppendProgress) (entries : List LogRecord) :
    (RaftNode × Nat) ⊕ AppendProgress → Prop
  | .inl (m, _) => ∃ before entry, p.node.GapAt entries before entry ∧
    m = before.foldl putEntry p.node
  | .inr q => p.node.AllJoin entries ∧
    (q.logChanged = false → p.logChanged = false ∧ q.node = p.node)

theorem LoopPuts.cons {p p' : AppendProgress} {result : (RaftNode × Nat) ⊕ AppendProgress}
    (h : LoopPuts p' entries result) (hjoin : p.node.Joins entry)
    (hnode : p'.node = p.node.putEntry entry)
    (hchanged : p'.logChanged = false → p.logChanged = false ∧ p'.node = p.node) :
    LoopPuts p (entry :: entries) result := by
  match result with
  | .inl (m, probe) =>
    obtain ⟨before, entry', hgap, rfl⟩ := h
    rw [hnode] at hgap
    refine ⟨entry :: before, entry', hgap.cons hjoin, ?_⟩
    rw [List.foldl_cons, hnode]
  | .inr q =>
    refine ⟨⟨hjoin, hnode ▸ h.1⟩, fun hq => ?_⟩
    obtain ⟨hp', hqnode⟩ := h.2 hq
    obtain ⟨hp, hsame⟩ := hchanged hp'
    exact ⟨hp, hqnode.trans hsame⟩

theorem appendLoop_puts (p : AppendProgress) (entries : List LogRecord) :
    LoopPuts p entries (appendLoop p entries) := by
  fun_induction appendLoop p entries with
  | case1 p => exact ⟨trivial, fun h => ⟨h, rfl⟩⟩
  | case2 p entry rest hold ih =>
    refine ih.cons (.inl hold) ?_ fun h => ⟨h, rfl⟩
    rw [putEntry, if_pos hold]
  | case3 p entry rest hold gap =>
    refine ⟨[], entry, ⟨⟨rest, rfl⟩, trivial, ?_⟩, rfl⟩
    rintro (h | h)
    · exact hold h
    · exact absurd gap (not_lt.mpr h)
  | case4 p entry rest hold gap has offset same ih =>
    refine ih.cons (.inr (not_lt.mp gap)) ?_ fun h => ⟨h, rfl⟩
    rw [putEntry, if_neg hold, if_pos has, if_pos same]
  | case5 p entry rest hold gap has offset same ih =>
    refine ih.cons (.inr (not_lt.mp gap)) ?_ fun h => absurd h (by simp)
    rw [putEntry, if_neg hold, if_pos has, if_neg same]
  | case6 p entry rest hold gap has ih =>
    refine ih.cons (.inr (not_lt.mp gap)) ?_ fun h => absurd h (by simp)
    rw [putEntry, if_neg hold, if_neg has]

theorem InStep.persistStateLocked (h : n.InStep) (saved : Bool) :
    (n.persistStateLocked saved).InStep := by
  cases saved with
  | true => rfl
  | false => exact h

theorem InStep.acceptLeaderLocked (h : n.InStep) (term : Nat) (leaderId : NodeId) (saved : Bool) :
    (n.acceptLeaderLocked term leaderId saved).1.InStep := by
  unfold RaftNode.acceptLeaderLocked becomeFollowerLocked
  split
  · split
    · refine InStep.persistStateLocked ?_ saved
      exact h
    · exact h
  · exact h

/-- The entries in front of the first one that does not join leave the log as it is. -/
def LeavesLog (n : RaftNode) (entries : List LogRecord) : Prop :=
  ∀ before entry, n.GapAt entries before entry → (before.foldl putEntry n).log = n.log

/-- The request is of a current leader whose term could be saved, and the record it builds on is
there. -/
def Admits (n : RaftNode) (request : AppendEntriesRequest) (termSaved : Bool) : Prop :=
  n.currentTerm ≤ request.term ∧ (n.currentTerm < request.term → termSaved = true) ∧
    n.lastSnapshotIndex ≤ request.prevLogIndex ∧
    n.hasLogAtIndexLocked request.prevLogIndex = true ∧
    n.termAtIndexLocked request.prevLogIndex = request.prevLogTerm

theorem InStep.appendEntriesBody_iff (h : n.InStep) (request : AppendEntriesRequest)
    (logSaved commitSaved : Bool) :
    (n.appendEntriesBody request logSaved commitSaved).1.InStep ↔ n.LeavesLog request.entries := by
  have hputs := appendLoop_puts ⟨n, false, request.prevLogIndex⟩ request.entries
  have hframe := appendLoop_frame request.entries ⟨n, false, request.prevLogIndex⟩
  unfold RaftNode.appendEntriesBody
  split
  · -- the exit at a gap
    rename_i m probe heq
    rw [heq] at hputs hframe
    obtain ⟨before, entry, hgap, rfl⟩ := hputs
    have hstorage : (before.foldl putEntry n).storage = n.storage := by
      rw [hframe]
    constructor
    · intro hstep before' entry' hgap'
      rw [hgap'.unique hgap]
      rw [InStep, hstorage, h] at hstep
      exact (Option.some.inj hstep).symm
    · intro hleaves
      rw [InStep, hstorage, hleaves before entry hgap]
      exact h
  · rename_i q heq
    rw [heq] at hputs
    refine ⟨fun _ before entry hgap => absurd hgap hputs.1.not_gapAt, fun _ => ?_⟩
    have hq : (if q.logChanged then q.node.persistStateLocked true else q.node).InStep := by
      split
      · rfl
      · rename_i hchanged
        rw [(hputs.2 (by simpa using hchanged)).2]
        exact h
    generalize (if q.logChanged then q.node.persistStateLocked true else q.node) = m at hq
    split
    · exact h
    · simp only
      split
      · split
        · rfl
        · exact hq
      · exact hq

theorem SameLog.leavesLog_iff {m : RaftNode} (h : SameLog m n) :
    m.LeavesLog entries ↔ n.LeavesLog entries := by
  refine forall₂_congr fun before entry => ?_
  rw [h.gapAt_iff, (h.foldl_putEntry before).log, h.log]

theorem acceptLeaderLocked_sameLog (n : RaftNode) (term : Nat) (leaderId : NodeId) (saved : Bool) :
    SameLog (n.acceptLeaderLocked term leaderId saved).1 n := by
  obtain ⟨hindex, hterm, hlog, -⟩ := n.acceptLeaderLocked_frame term leaderId saved
  exact ⟨hlog, hindex, hterm⟩

/-- A leader of a current or newer term is accepted unless its term could not be saved. -/
theorem acceptLeaderLocked_ok (n : RaftNode) (term : Nat) (leaderId : NodeId) (saved : Bool) :
    (n.acceptLeaderLocked term leaderId saved).2 = true ↔
    (n.currentTerm < term → saved = true) := by
  grind [RaftNode.acceptLeaderLocked, becomeFollowerLocked]

/-- Memory and disk stay in step exactly when the handler does not leave its loop behind a change
of the log. -/
theorem onAppendEntries_inStep_iff {n : RaftNode} (h : n.InStep) (request : AppendEntriesRequest)
    (termSaved logSaved commitSaved : Bool) :
    (n.onAppendEntries request termSaved logSaved commitSaved).1.InStep ↔
      (n.Admits request termSaved → n.LeavesLog request.entries) := by
  have hsame := n.acceptLeaderLocked_sameLog request.term request.leaderId termSaved
  have hok := n.acceptLeaderLocked_ok request.term request.leaderId termSaved
  have hstep := h.acceptLeaderLocked request.term request.leaderId termSaved
  unfold onAppendEntries
  generalize n.acceptLeaderLocked request.term request.leaderId termSaved = res at hsame hok hstep
  obtain ⟨m, ok⟩ := res
  simp only at hsame hok hstep ⊢
  split
  · rename_i hstale
    exact iff_of_true h fun hadmits => absurd hadmits.1 (not_le.mpr hstale)
  · rename_i hterm
    split
    · rename_i hno
      refine iff_of_true hstep fun hadmits => ?_
      rw [hok.mpr hadmits.2.1] at hno
      cases hno
    · rename_i hyes
      rw [hsame.hasLogAtIndexLocked, hsame.termAtIndexLocked, hsame.index]
      split
      · rename_i hcheck
        refine iff_of_true hstep fun ⟨_, _, hsnap, hhas, hterm⟩ => ?_
        rcases hcheck with hlt | hnone | hne
        · exact absurd hsnap (not_le.mpr hlt)
        · simp [hhas] at hnone
        · exact absurd hterm hne
      · rename_i hcheck
        simp only [not_or, not_lt, Bool.not_eq_true', Bool.not_eq_false, ne_eq, not_not] at hcheck
        have hadmits : n.Admits request termSaved :=
          ⟨not_lt.mp hterm, hok.mp (by simpa using hyes), hcheck⟩
        rw [hstep.appendEntriesBody_iff, hsame.leavesLog_iff]
        exact ⟨fun hleaves _ => hleaves, fun hleaves => hleaves hadmits⟩

/-- A follower of term 1 whose log holds nothing yet, saved as it is. -/
def emptyFollower : RaftNode :=
  { recover 1 [2, 3] none with running := true, currentTerm := 1, leaderId := 2 }.persistStateLocked
    true

/-- Two entries in a row. -/
def rowRequest : AppendEntriesRequest := ⟨1, 2, 0, 0, [⟨1, 1, [1]⟩, ⟨2, 1, [2]⟩], 0⟩

theorem onAppendEntries_inStep_row :
    (emptyFollower.onAppendEntries rowRequest true true true).1.InStep := by
  refine (onAppendEntries_inStep_iff (by decide) rowRequest true true true).mpr ?_
  intro _ before entry hgap
  refine absurd hgap (AllJoin.not_gapAt ?_)
  exact ⟨.inr (by decide), .inr (by decide), trivial⟩

/-- The second entry lies one beyond the end of the log. -/
def gapRequest : AppendEntriesRequest := ⟨1, 2, 0, 0, [⟨1, 1, [1]⟩, ⟨3, 1, [3]⟩], 0⟩

theorem onAppendEntries_out_of_step :
    emptyFollower.InStep ∧
      ¬ (emptyFollower.onAppendEntries gapRequest true true true).1.InStep := by
  constructor <;> decide

end RaftNode

end CquptRaft
