import CquptRaft.Node.Snapshot
import CquptRaft.Replication.Replicator
import CquptRaft.Theory.Replica

/-!
# The log of a node as a replica

The record at the head of `log_` stands for everything up to `last_snapshot_index_`: it is the
bootstrap record or a snapshot marker. `Represents` says that a node holds a replica, whose log
is the full one, from index 1 on. The accessors of the node then read the replica.
-/

namespace CquptRaft

open Replication

/-- The record with index `i` is the `i`-th. -/
def Indexed (ℓ : List LogRecord) : Prop := ∀ i (h : i < ℓ.length), ℓ[i].index = i + 1

theorem Indexed.of_le {ℓ ℓ' : List LogRecord} (h : Indexed ℓ') (hle : ℓ <+: ℓ') : Indexed ℓ := by
  intro i hi
  obtain ⟨s, rfl⟩ := hle
  have := h i (by simp; omega)
  rwa [List.getElem_append_left hi] at this

theorem Indexed.append {ℓ : List LogRecord} (h : Indexed ℓ) {r : LogRecord}
    (hr : r.index = ℓ.length + 1) : Indexed (ℓ ++ [r]) := by
  intro i hi
  by_cases hlt : i < ℓ.length
  · rw [List.getElem_append_left hlt]
    exact h i hlt
  · have heq : i = ℓ.length := by
      simp at hi
      omega
    subst heq
    simpa using hr

/-- The record at the head of the kept log. -/
def headRecord (r : Replica LogRecord) : LogRecord :=
  if r.snap = 0 then RaftNode.bootstrapRecord
  else ⟨r.snap, termAt LogRecord.term r.log r.snap, kSnapshotMarkerCommand⟩

@[simp] theorem headRecord_index (r : Replica LogRecord) : (headRecord r).index = r.snap := by
  unfold headRecord
  split
  · simp_all [RaftNode.bootstrapRecord]
  · rfl

@[simp] theorem headRecord_term (r : Replica LogRecord) :
    (headRecord r).term = termAt LogRecord.term r.log r.snap := by
  unfold headRecord
  split
  · simp_all [RaftNode.bootstrapRecord]
  · rfl

/-- `log` keeps the replica's log behind its snapshot. -/
structure Stores (log : List LogRecord) (r : Replica LogRecord) : Prop where
  eq : log = headRecord r :: r.log.drop r.snap
  snap_le : r.snap ≤ r.log.length
  indexed : Indexed r.log

namespace Stores

variable {log : List LogRecord} {r : Replica LogRecord}

theorem ne_nil (h : Stores log r) : log ≠ [] := by simp [h.eq]

theorem head? (h : Stores log r) : log.head? = some (headRecord r) := by simp [h.eq]

theorem length_eq (h : Stores log r) : log.length = r.log.length - r.snap + 1 := by simp [h.eq]

theorem getElem?_zero (h : Stores log r) : log[0]? = some (headRecord r) := by simp [h.eq]

theorem getElem?_succ (h : Stores log r) (j : Nat) : log[j + 1]? = r.log[r.snap + j]? := by
  simp [h.eq, List.getElem?_drop]

/-- The record that a kept log has at index `i`. -/
theorem getElem?_sub (h : Stores log r) {i : Nat} (hi : r.snap < i) :
    log[i - r.snap]? = r.log[i - 1]? := by
  obtain ⟨j, rfl⟩ : ∃ j, i = r.snap + (j + 1) := ⟨i - r.snap - 1, by omega⟩
  rw [show r.snap + (j + 1) - r.snap = j + 1 by omega, h.getElem?_succ]
  rfl

theorem getLast? (h : Stores log r) :
    log.getLast? = if r.snap = r.log.length then some (headRecord r) else r.log.getLast? := by
  rw [List.getLast?_eq_getElem?, h.length_eq]
  split
  · rename_i heq
    rw [show r.log.length - r.snap + 1 - 1 = 0 by omega, h.getElem?_zero]
  · rename_i hne
    have hlt := lt_of_le_of_ne h.snap_le hne
    rw [List.getLast?_eq_getElem?, ← h.getElem?_sub hlt]
    congr 1

theorem getLast?_index (h : Stores log r) : ∃ x, log.getLast? = some x ∧
    x.index = r.log.length ∧ x.term = termAt LogRecord.term r.log r.log.length := by
  rw [h.getLast?]
  split
  · rename_i heq
    exact ⟨_, rfl, by rw [headRecord_index, heq], by rw [headRecord_term, heq]⟩
  · rename_i hne
    have hlt := lt_of_le_of_ne h.snap_le hne
    have hpos : r.log.length - 1 < r.log.length := by omega
    refine ⟨r.log[r.log.length - 1], by
      rw [List.getLast?_eq_getElem?, List.getElem?_eq_getElem hpos], ?_, ?_⟩
    · rw [h.indexed _ hpos]
      omega
    · obtain ⟨k, hk⟩ : ∃ k, r.log.length = k + 1 := ⟨r.log.length - 1, by omega⟩
      simp [hk, termAt]

end Stores

/-- The node holds the replica in memory. -/
structure Represents (n : RaftNode) (r : Replica LogRecord) : Prop where
  term : n.currentTerm = r.term
  commit : n.commitIndex = r.commit
  snapIndex : n.lastSnapshotIndex = r.snap
  snapTerm : n.lastSnapshotTerm = termAt LogRecord.term r.log r.snap
  stores : Stores n.log r

namespace Represents

variable {n : RaftNode} {r : Replica LogRecord}

theorem firstLogIndexLocked (h : Represents n r) : n.firstLogIndexLocked = r.snap := by
  simp [RaftNode.firstLogIndexLocked, h.stores.head?]

theorem lastLogIndexLocked (h : Represents n r) : n.lastLogIndexLocked = r.log.length := by
  obtain ⟨x, hx, hindex, -⟩ := h.stores.getLast?_index
  simp [RaftNode.lastLogIndexLocked, hx, hindex]

theorem lastLogTermLocked (h : Represents n r) :
    n.lastLogTermLocked = termAt LogRecord.term r.log r.log.length := by
  obtain ⟨x, hx, -, hterm⟩ := h.stores.getLast?_index
  simp [RaftNode.lastLogTermLocked, hx, hterm]

theorem hasLogAtIndexLocked (h : Represents n r) (i : Nat) :
    n.hasLogAtIndexLocked i = true ↔ r.snap ≤ i ∧ i ≤ r.log.length := by
  obtain ⟨x, hx, hindex, -⟩ := h.stores.getLast?_index
  simp [RaftNode.hasLogAtIndexLocked, h.stores.head?, hx, hindex]

theorem logAtIndexLocked (h : Represents n r) {i : Nat} (hsnap : r.snap < i)
    (hi : i ≤ r.log.length) : n.logAtIndexLocked i = r.log[i - 1]? := by
  rw [RaftNode.logAtIndexLocked, if_pos ((h.hasLogAtIndexLocked i).mpr ⟨hsnap.le, hi⟩),
    RaftNode.logOffsetLocked, h.firstLogIndexLocked, h.stores.getElem?_sub hsnap]

theorem logAtIndexLocked_snap (h : Represents n r) :
    n.logAtIndexLocked r.snap = some (headRecord r) := by
  rw [RaftNode.logAtIndexLocked,
    if_pos ((h.hasLogAtIndexLocked r.snap).mpr ⟨le_rfl, h.stores.snap_le⟩),
    RaftNode.logOffsetLocked, h.firstLogIndexLocked, Nat.sub_self, h.stores.getElem?_zero]

theorem logAtIndexLocked_none (h : Represents n r) {i : Nat}
    (hi : ¬ (r.snap ≤ i ∧ i ≤ r.log.length)) : n.logAtIndexLocked i = none := by
  rw [RaftNode.logAtIndexLocked, if_neg (fun hhas => hi ((h.hasLogAtIndexLocked i).mp hhas))]

theorem termAtIndexLocked (h : Represents n r) {i : Nat} (hsnap : r.snap ≤ i)
    (hi : i ≤ r.log.length) : n.termAtIndexLocked i = termAt LogRecord.term r.log i := by
  rw [RaftNode.termAtIndexLocked, h.snapIndex, h.snapTerm]
  split
  · rename_i heq
    rw [heq]
  · rename_i hne
    have hlt : r.snap < i := lt_of_le_of_ne hsnap (Ne.symm hne)
    obtain ⟨k, rfl⟩ : ∃ k, i = k + 1 := ⟨i - 1, by omega⟩
    have hk : k < r.log.length := hi
    rw [h.logAtIndexLocked hlt hi]
    simp [termAt, List.getElem?_eq_getElem hk]

theorem termAtIndexLocked_none (h : Represents n r) {i : Nat}
    (hi : ¬ (r.snap ≤ i ∧ i ≤ r.log.length)) : n.termAtIndexLocked i = 0 := by
  have hne : i ≠ r.snap := by
    rintro rfl
    exact hi ⟨le_rfl, h.stores.snap_le⟩
  rw [RaftNode.termAtIndexLocked, h.snapIndex, if_neg hne, h.logAtIndexLocked_none hi]

/-- Only term, commit index, boundary and log matter. -/
theorem congr {n' : RaftNode} (h : Represents n r) (hterm : n'.currentTerm = n.currentTerm)
    (hcommit : n'.commitIndex = n.commitIndex)
    (hindex : n'.lastSnapshotIndex = n.lastSnapshotIndex)
    (hsnap : n'.lastSnapshotTerm = n.lastSnapshotTerm) (hlog : n'.log = n.log) :
    Represents n' r :=
  ⟨hterm.trans h.term, hcommit.trans h.commit, hindex.trans h.snapIndex, hsnap.trans h.snapTerm,
    hlog ▸ h.stores⟩

end Represents

/-- The state on disk holds the replica. -/
structure Persists (s : PersistentRaftState) (r : Replica LogRecord) : Prop where
  term : s.currentTerm = r.term
  commit : s.commitIndex = r.commit
  applied : s.lastApplied ≤ s.commitIndex
  stores : Stores s.log r

/-- What the data directory holds; an empty one is the empty replica. -/
def Durable (storage : Option PersistentRaftState) (r : Replica LogRecord) : Prop :=
  match storage with
  | none => r = ⟨0, [], 0, 0⟩
  | some s => Persists s r

theorem Represents.persists {n : RaftNode} {r : Replica LogRecord} (h : Represents n r)
    (happlied : n.lastApplied ≤ n.commitIndex) : Persists n.persistentState r :=
  ⟨h.term, h.commit, happlied, h.stores⟩

end CquptRaft
