import CquptRaft.Node.AppendEntries

/-!
# What a leader does to its log

A leader appends to its own log, cuts windows out of it and commits what a majority has. Its
log in memory is the log the history gives to the leader of its term.
-/

namespace CquptRaft

open Replication RaftNode

variable {H : History NodeId LogRecord} {members : Finset NodeId} {q : NodeId}

/-! ## Local append -/

/-- The record that a leader with this replica writes next. -/
def nextRecord (mem : Replica LogRecord) (commandData : Bytes) : LogRecord :=
  ⟨mem.log.length + 1, mem.term, commandData⟩

theorem NodeInv.appendLocalLogUnlocked {n : RaftNode} {mem dur : Replica LogRecord}
    (h : NodeInv H members q n mem dur) (hH : H.Valid members LogRecord.term)
    (hT : H.Elected mem.term) (hlog : mem.log = H.leaderLog mem.term) (commandData : Bytes) :
    NodeInv (H.append mem.term (nextRecord mem commandData)) members q
      (n.appendLocalLogUnlocked commandData true).1
      { mem with log := mem.log ++ [nextRecord mem commandData] }
      { mem with log := mem.log ++ [nextRecord mem commandData] } := by
  have hext : History.Extends H (H.append mem.term (nextRecord mem commandData)) :=
    History.extends_append
  have hH' := hH.append (x := nextRecord mem commandData) hT rfl
  have hleader : (H.append mem.term (nextRecord mem commandData)).leaderLog mem.term =
      mem.log ++ [nextRecord mem commandData] := by
    simp [History.append, ← hlog]
  have hwritten : (H.append mem.term (nextRecord mem commandData)).written mem.term
      (mem.log.length + 1) = mem.log ++ [nextRecord mem commandData] := by
    rw [History.written, hleader, List.take_of_length_le (by simp)]
  have hsound : Sound (H.append mem.term (nextRecord mem commandData)) members LogRecord.term q
      { mem with log := mem.log ++ [nextRecord mem commandData] } := by
    have hmono := h.memSound.mono hH hext fun T i hack => .inl hack
    have haccept := hmono.accept hH' (hext.elected hT) (k := mem.log.length + 1)
      (fun P hP _ => by
        rw [hwritten]
        exact hP.trans (List.prefix_append _ _))
      ((take_le _ _).trans (by
        rw [hleader]
        exact List.prefix_append _ _))
    rw [hwritten] at haccept
    exact haccept.1
  have hrep : Represents { n with log := n.log ++ [nextRecord mem commandData] }
      { mem with log := mem.log ++ [nextRecord mem commandData] } := by
    have hsnap := h.memSound.snap_le_length
    have hindex : (nextRecord mem commandData).index = mem.log.length + 1 := rfl
    have htrunc := h.represents.truncate_append hsnap le_rfl hindex
    have hall : n.log.take (mem.log.length + 1 - mem.snap) = n.log := by
      refine List.take_of_length_le ?_
      rw [h.represents.stores.length_eq]
      omega
    rwa [hall, List.take_length] at htrunc
  have hnode : (n.appendLocalLogUnlocked commandData true).1 =
      { n with
        log := n.log ++ [nextRecord mem commandData]
        matchIndex := Function.update n.matchIndex n.nodeId (mem.log.length + 1)
        nextIndex := Function.update n.nextIndex n.nodeId (mem.log.length + 1 + 1)
        }.persistStateLocked true := by
    simp only [RaftNode.appendLocalLogUnlocked, if_true, h.represents.lastLogIndexLocked,
      h.represents.term, nextRecord]
  rw [hnode]
  have hrep' : Represents { n with
        log := n.log ++ [nextRecord mem commandData]
        matchIndex := Function.update n.matchIndex n.nodeId (mem.log.length + 1)
        nextIndex := Function.update n.nextIndex n.nodeId (mem.log.length + 1 + 1) }
      { mem with log := mem.log ++ [nextRecord mem commandData] } :=
    hrep.congr rfl rfl rfl rfl rfl
  exact ⟨hrep'.congr (by simp) (by simp) (by simp) (by simp) (by simp), hrep'.persists h.applied,
    hsound, hsound, .save hsound, by simpa using h.applied⟩

/-! ## The commit index -/

theorem RaftNode.advanceLoop_some {n : RaftNode} {k i : Nat} (h : n.advanceLoop k = some i) :
    n.commitIndex < i ∧ n.hasLogAtIndexLocked i = true ∧ n.termAtIndexLocked i = n.currentTerm ∧
      n.quorum ≤ n.replicatedCount i := by
  induction k with
  | zero => cases h
  | succ k ih =>
    rw [advanceLoop] at h
    split at h
    · cases h
    · split at h
      · rename_i hlt hfound
        cases h
        exact ⟨not_le.mp hlt, hfound⟩
      · exact ih h

theorem RaftNode.advanceCommitIndexUnlocked_cases (n : RaftNode) (saved : Bool) :
    n.advanceCommitIndexUnlocked saved = n ∨ n.role = .leader ∧ ∃ i,
      n.advanceCommitIndexUnlocked saved = { n with commitIndex := i }.persistStateLocked saved ∧
      n.commitIndex < i ∧ n.hasLogAtIndexLocked i = true ∧
      n.termAtIndexLocked i = n.currentTerm ∧ n.quorum ≤ n.replicatedCount i := by
  unfold advanceCommitIndexUnlocked
  split
  · exact .inl rfl
  · rename_i hrole
    split
    · exact .inl rfl
    · rename_i i hi
      simp only [not_or, not_not] at hrole
      exact .inr ⟨hrole.1, i, rfl, advanceLoop_some hi⟩

/-! ## Windows of the log -/

theorem Represents.batchLoop_le {n : RaftNode} {mem : Replica LogRecord} (h : Represents n mem)
    (passes : Nat) {index : Nat} (hindex : mem.snap < index) (entryCount bytesCount : Nat) :
    n.batchLoop index entryCount bytesCount passes <+: mem.log.drop (index - 1) := by
  induction passes generalizing index entryCount bytesCount with
  | zero => exact List.nil_prefix
  | succ passes ih =>
    rw [batchLoop]
    split
    · exact List.nil_prefix
    · rename_i hno
      rw [h.lastLogIndexLocked] at hno
      have hle : index ≤ mem.log.length := by omega
      have hlt : index - 1 < mem.log.length := by omega
      rw [h.logAtIndexLocked hindex hle, List.getElem?_eq_getElem hlt]
      simp only
      split
      · exact List.nil_prefix
      · rw [List.drop_eq_getElem_cons hlt, List.cons_prefix_cons]
        refine ⟨rfl, ?_⟩
        rw [show index - 1 + 1 = index + 1 - 1 by omega]
        exact ih (by omega) _ _

/-- The request a leader builds is a window of its log. -/
theorem NodeInv.window {n : RaftNode} {mem dur : Replica LogRecord}
    (h : NodeInv H members q n mem dur) (hT : H.Elected mem.term)
    (hlog : mem.log = H.leaderLog mem.term)
    (hcommit : H.ChosenBy members mem.term (mem.log.take mem.commit)) {peer : NodeId}
    {leaderTerm : Nat} {n' : RaftNode} {request : AppendEntriesRequest}
    (hbuild : n.buildAppendEntriesRequest peer leaderTerm = (n', .append request)) :
    Window H members request ∧ request.term = mem.term ∧ request.leaderId = n.nodeId := by
  unfold RaftNode.buildAppendEntriesRequest at hbuild
  split at hbuild
  · cases hbuild
  · generalize (if n.nextIndex peer = 0 then n.lastLogIndexLocked + 1 else n.nextIndex peer) = next
      at hbuild
    simp only at hbuild
    have hm : Represents { n with nextIndex := Function.update n.nextIndex peer next } mem :=
      h.represents.congr rfl rfl rfl rfl rfl
    generalize hmdef :
      { n with nextIndex := Function.update n.nextIndex peer next } = m at hbuild hm
    have hid : m.nodeId = n.nodeId := by rw [← hmdef]
    split at hbuild
    · cases hbuild
    · rename_i hfirst
      rw [hm.firstLogIndexLocked] at hfirst
      split at hbuild
      · cases hbuild
      · rename_i hterm
        cases hbuild
        have hsnap : mem.snap ≤ next - 1 := by omega
        have hprev : next - 1 ≤ mem.log.length := by
          by_contra hlong
          refine hterm ⟨hm.termAtIndexLocked_none (by omega), by omega⟩
        refine ⟨⟨?_, ?_, ?_, ?_, ?_, ?_⟩, hm.term, hid⟩ <;>
          simp only [appendRequestFrom, hm.term, hm.commit, ← hlog]
        · exact hT
        · exact hprev
        · exact hm.termAtIndexLocked hsnap hprev
        · exact hm.batchLoop_le _ (by omega) 0 0
        · exact h.memSound.commit_le
        · rwa [History.written, ← hlog]

end CquptRaft
