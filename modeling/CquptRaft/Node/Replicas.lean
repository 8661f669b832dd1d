import CquptRaft.Node.Represents
import CquptRaft.Node.Votes

/-!
# What a critical section does to the replicas of a node

A node has a replica in memory and one on disk. `NodeInv` is their invariant against a history
of the cluster. Each section is cut into moves of the two replicas, and each move keeps the
invariant.
-/

namespace CquptRaft

open Replication

/-- The memory of a node has moved on: nothing committed has changed. -/
structure Evolves (mem mem' : Replica LogRecord) : Prop where
  term : mem.term ≤ mem'.term
  commit : mem.commit ≤ mem'.commit
  take : ∀ i ≤ mem.commit, mem'.log.take i = mem.log.take i

theorem Evolves.refl (mem : Replica LogRecord) : Evolves mem mem := ⟨le_rfl, le_rfl, fun _ _ => rfl⟩

theorem Evolves.trans {mem mem' mem'' : Replica LogRecord} (h : Evolves mem mem')
    (h' : Evolves mem' mem'') : Evolves mem mem'' :=
  ⟨h.term.trans h'.term, h.commit.trans h'.commit,
    fun i hi => (h'.take i (hi.trans h.commit)).trans (h.take i hi)⟩

variable {H : History NodeId LogRecord} {members : Finset NodeId} {q : NodeId}

/-- Memory and disk of member `q`. -/
structure NodeInv (H : History NodeId LogRecord) (members : Finset NodeId) (q : NodeId)
    (n : RaftNode) (mem dur : Replica LogRecord) : Prop where
  represents : Represents n mem
  durable : Durable n.storage dur
  memSound : Sound H members LogRecord.term q mem
  durSound : Sound H members LogRecord.term q dur
  backed : Backed H members LogRecord.term mem dur
  applied : n.lastApplied ≤ n.commitIndex

namespace NodeInv

variable {n n' : RaftNode} {mem mem' dur : Replica LogRecord}

theorem congr (h : NodeInv H members q n mem dur) (hterm : n'.currentTerm = n.currentTerm)
    (hcommit : n'.commitIndex = n.commitIndex)
    (hindex : n'.lastSnapshotIndex = n.lastSnapshotIndex)
    (hsnap : n'.lastSnapshotTerm = n.lastSnapshotTerm) (hlog : n'.log = n.log)
    (hstorage : n'.storage = n.storage) (happlied : n'.lastApplied = n.lastApplied) :
    NodeInv H members q n' mem dur :=
  ⟨h.represents.congr hterm hcommit hindex hsnap hlog, hstorage ▸ h.durable, h.memSound,
    h.durSound, h.backed, by rw [happlied, hcommit]; exact h.applied⟩

theorem persist (h : NodeInv H members q n mem dur) (saved : Bool) :
    NodeInv H members q (n.persistStateLocked saved) mem (if saved then mem else dur) := by
  cases saved with
  | false => exact h
  | true =>
    refine ⟨h.represents.congr rfl rfl rfl rfl rfl, ?_, h.memSound, h.memSound, .save h.memSound,
      h.applied⟩
    exact h.represents.persists h.applied

/-! ## Terms -/

theorem raise (h : NodeInv H members q n mem dur) {t : Nat} (ht : mem.term ≤ t)
    (hterm : n'.currentTerm = t) (hcommit : n'.commitIndex = n.commitIndex)
    (hindex : n'.lastSnapshotIndex = n.lastSnapshotIndex)
    (hsnap : n'.lastSnapshotTerm = n.lastSnapshotTerm) (hlog : n'.log = n.log)
    (hstorage : n'.storage = n.storage) (happlied : n'.lastApplied = n.lastApplied) :
    NodeInv H members q n' { mem with term := t } dur :=
  ⟨⟨hterm, hcommit.trans h.represents.commit, hindex.trans h.represents.snapIndex,
    hsnap.trans h.represents.snapTerm, hlog ▸ ⟨h.represents.stores.eq, h.represents.stores.snap_le,
      h.represents.stores.indexed⟩⟩, hstorage ▸ h.durable,
    h.memSound.raise ht, h.durSound, h.backed.of_log_eq rfl ht,
    by rw [happlied, hcommit]; exact h.applied⟩

theorem becomeFollowerLocked (h : NodeInv H members q n mem dur) (newTerm : Nat)
    (newLeader : NodeId) (saved : Bool) :
    ∃ dur', NodeInv H members q (n.becomeFollowerLocked newTerm newLeader saved).1
      { mem with term := max mem.term newTerm } dur' := by
  unfold RaftNode.becomeFollowerLocked
  split
  · rename_i hlt
    rw [h.represents.term] at hlt
    rw [max_eq_right hlt.le]
    refine ⟨if saved then { mem with term := newTerm } else dur, NodeInv.persist ?_ saved⟩
    exact h.raise hlt.le rfl rfl rfl rfl rfl rfl rfl
  · rename_i hge
    rw [h.represents.term] at hge
    refine ⟨dur, ?_⟩
    rw [max_eq_left (by omega)]
    exact h.congr rfl rfl rfl rfl rfl rfl rfl

/-- The block that opens `OnAppendEntries` and `OnInstallSnapshot`. -/
theorem acceptLeaderLocked (h : NodeInv H members q n mem dur) {term : Nat}
    (hterm : ¬ term < n.currentTerm) (leaderId : NodeId) (saved : Bool) :
    ∃ dur', NodeInv H members q (n.acceptLeaderLocked term leaderId saved).1
      { mem with term := term } dur' := by
  rw [h.represents.term] at hterm
  have hmax : max mem.term term = term := by omega
  unfold RaftNode.acceptLeaderLocked
  split
  · obtain ⟨dur', h'⟩ := h.becomeFollowerLocked term leaderId saved
    rw [hmax] at h'
    exact ⟨dur', h'⟩
  · rename_i hno
    rw [h.represents.term] at hno
    have heq : mem.term = term := by
      have := (not_or.mp hno).1
      omega
    refine ⟨dur, ?_⟩
    rw [← heq]
    exact h.congr rfl rfl rfl rfl rfl rfl rfl

/-! ## Commits -/

theorem commitTo (h : NodeInv H members q n mem dur) {k : Nat} (hk : mem.commit ≤ k)
    (hlen : k ≤ mem.log.length)
    (hch : H.ChosenBy members mem.term (mem.log.take k)) :
    NodeInv H members q { n with commitIndex := k } { mem with commit := k } dur := by
  refine ⟨⟨h.represents.term, rfl, h.represents.snapIndex, h.represents.snapTerm,
    ⟨h.represents.stores.eq, h.represents.stores.snap_le, h.represents.stores.indexed⟩⟩,
    h.durable, h.memSound.commitTo hk hlen hch, h.durSound, h.backed.of_log_eq rfl le_rfl, ?_⟩
  have := h.applied
  rw [h.represents.commit] at this
  exact this.trans hk

end NodeInv

theorem Evolves.commitTo {mem : Replica LogRecord} {k : Nat} (hk : mem.commit ≤ k) :
    Evolves mem { mem with commit := k } := ⟨le_rfl, hk, fun _ _ => rfl⟩

theorem Evolves.raise {mem : Replica LogRecord} {t : Nat} (ht : mem.term ≤ t) :
    Evolves mem { mem with term := t } := ⟨ht, le_rfl, fun _ _ => rfl⟩

theorem RaftNode.becomeFollowerLocked_role (n : RaftNode) (newTerm : Nat) (newLeader : NodeId)
    (saved : Bool) : (n.becomeFollowerLocked newTerm newLeader saved).1.role = .follower := by
  unfold becomeFollowerLocked
  split
  · simp [resetElectionTimerLocked, cancelElectionTimerLocked]
  · rfl

theorem RaftNode.acceptLeaderLocked_role (n : RaftNode) (term : Nat) (leaderId : NodeId)
    (saved : Bool) : (n.acceptLeaderLocked term leaderId saved).1.role = .follower := by
  unfold acceptLeaderLocked
  split
  · exact n.becomeFollowerLocked_role term leaderId saved
  · rename_i hno
    simp only [not_or, not_not] at hno
    exact hno.2.1

/-- Accepting a leader leaves log, boundary and commit index alone. -/
theorem RaftNode.acceptLeaderLocked_frame (n : RaftNode) (term : Nat) (leaderId : NodeId)
    (saved : Bool) :
    (n.acceptLeaderLocked term leaderId saved).1.lastSnapshotIndex = n.lastSnapshotIndex ∧
    (n.acceptLeaderLocked term leaderId saved).1.lastSnapshotTerm = n.lastSnapshotTerm ∧
    (n.acceptLeaderLocked term leaderId saved).1.log = n.log ∧
    (n.acceptLeaderLocked term leaderId saved).1.commitIndex = n.commitIndex := by
  unfold acceptLeaderLocked becomeFollowerLocked
  split
  · split <;> simp [resetElectionTimerLocked, cancelElectionTimerLocked]
  · exact ⟨rfl, rfl, rfl, rfl⟩

/-! ## Compaction and installed snapshots -/

theorem Indexed.filter_drop {ℓ : List LogRecord} (h : Indexed ℓ) {s i : Nat} (hsi : s ≤ i) :
    (ℓ.drop s).filter (fun record => i < record.index) = ℓ.drop i := by
  have hsplit : ℓ.drop s = (ℓ.drop s).take (i - s) ++ ℓ.drop i := by
    conv_lhs => rw [← List.take_append_drop (i - s) (ℓ.drop s)]
    rw [List.drop_drop, show s + (i - s) = i by omega]
  rw [hsplit, List.filter_append, List.filter_eq_nil_iff.mpr, List.filter_eq_self.mpr,
    List.nil_append]
  · intro r hr
    obtain ⟨j, hj, rfl⟩ := List.mem_iff_getElem.mp hr
    rw [List.getElem_drop, h]
    exact decide_eq_true (by omega)
  · intro r hr
    obtain ⟨j, hj, rfl⟩ := List.mem_iff_getElem.mp hr
    rw [List.length_take, List.length_drop] at hj
    rw [List.getElem_take, List.getElem_drop, h, decide_eq_true_eq]
    omega

/-- How the log changes when the snapshot of `π` enters. -/
def Installs (π : List LogRecord) (mem mem' : Replica LogRecord) : Prop :=
  (π <+: mem.log ∧ mem'.log = mem.log ∨ ¬ π <+: mem.log ∧ mem'.log = π) ∧
  mem'.term = mem.term ∧ mem'.snap = π.length ∧ mem'.commit = max mem.commit π.length

theorem Represents.keepsSuffixLocked_of_le {n : RaftNode} {mem : Replica LogRecord}
    (h : Represents n mem) {π : List LogRecord} (hle : π <+: mem.log)
    (hsnap : mem.snap < π.length) :
    n.keepsSuffixLocked π.length (termAt LogRecord.term π π.length) = true := by
  obtain ⟨k, hk⟩ : ∃ k, π.length = k + 1 := ⟨π.length - 1, by omega⟩
  have hlen := hle.length_le
  have hklt : k < mem.log.length := by omega
  have hterm := termAt_of_le LogRecord.term hle le_rfl
  rw [hk] at hterm ⊢
  simp only [termAt, List.getElem?_eq_getElem hklt, Option.map_some, Option.getD_some] at hterm
  rw [RaftNode.keepsSuffixLocked, h.logAtIndexLocked (by omega) (by omega), Nat.add_sub_cancel,
    List.getElem?_eq_getElem hklt]
  simp [termAt, hterm]

theorem Represents.keepsSuffixLocked {n : RaftNode} {mem : Replica LogRecord}
    (h : Represents n mem) {L : Nat → List LogRecord} (hgood : Good LogRecord.term L mem.log)
    {π : List LogRecord} (hπ : Good LogRecord.term L π) (hsnap : mem.snap < π.length) :
    n.keepsSuffixLocked π.length (termAt LogRecord.term π π.length) = true ↔ π <+: mem.log := by
  refine ⟨fun hkeeps => ?_, fun hle => h.keepsSuffixLocked_of_le hle hsnap⟩
  have hne : π.length ≠ n.lastSnapshotIndex := by
    rw [h.snapIndex]
    omega
  simp only [RaftNode.keepsSuffixLocked, beq_eq_false_iff_ne.mpr hne, Bool.false_and,
    Bool.or_false] at hkeeps
  by_cases hlen : π.length ≤ mem.log.length
  · obtain ⟨k, hk⟩ : ∃ k, π.length = k + 1 := ⟨π.length - 1, by omega⟩
    have hklt : k < mem.log.length := by omega
    rw [h.logAtIndexLocked hsnap hlen, show π.length - 1 = k by omega,
      List.getElem?_eq_getElem hklt] at hkeeps
    have hterm : termAt LogRecord.term mem.log π.length = termAt LogRecord.term π π.length := by
      have hk' : termAt LogRecord.term mem.log π.length = (mem.log[k]).term := by
        rw [hk]
        simp [termAt, List.getElem?_eq_getElem hklt]
      rw [hk']
      exact beq_iff_eq.mp hkeeps
    have htake := hgood.take_eq_of_termAt_eq hπ hlen le_rfl hterm
    rw [List.take_length] at htake
    exact htake ▸ take_le _ _
  · rw [h.logAtIndexLocked_none (by omega)] at hkeeps
    cases hkeeps

/-- The log keeps its records behind the boundary of a snapshot of its own prefix. -/
theorem Represents.compactLogPrefixLocked_of_prefix_le {n : RaftNode} {mem : Replica LogRecord}
    (h : Represents n mem) {π : List LogRecord} (hle : π <+: mem.log)
    (hsnap : mem.snap < π.length) :
    Represents (n.compactLogPrefixLocked π.length (termAt LogRecord.term π π.length))
      ⟨mem.term, mem.log, π.length, max mem.commit π.length⟩ := by
  have hno : ¬ (π.length ≤ n.lastSnapshotIndex ∧ n.log ≠ [] ∧
      n.firstLogIndexLocked = n.lastSnapshotIndex) := by
    rw [h.snapIndex]
    omega
  have hterm : termAt LogRecord.term mem.log π.length = termAt LogRecord.term π π.length :=
    (termAt_of_le LogRecord.term hle le_rfl).symm
  simp only [RaftNode.compactLogPrefixLocked, RaftNode.restoreLogAfterSnapshotLocked, if_neg hno,
    Bool.true_and, h.keepsSuffixLocked_of_le hle hsnap, if_pos]
  refine ⟨h.term, by rw [h.commit], rfl, hterm.symm, ⟨?_, hle.length_le, h.stores.indexed⟩⟩
  rw [headRecord, if_neg (by simp only; omega), h.stores.eq,
    List.filter_cons_of_neg (by simpa using hsnap.le), h.stores.indexed.filter_drop hsnap.le, hterm]

theorem Represents.compactLogPrefixLocked {n : RaftNode} {mem : Replica LogRecord}
    (h : Represents n mem) {L : Nat → List LogRecord} (hgood : Good LogRecord.term L mem.log)
    {π : List LogRecord} (hπ : Good LogRecord.term L π) (hindexed : Indexed π)
    (hsnap : mem.snap < π.length) :
    ∃ mem', Represents (n.compactLogPrefixLocked π.length (termAt LogRecord.term π π.length)) mem' ∧
      Installs π mem mem' := by
  by_cases hle : π <+: mem.log
  · exact ⟨_, h.compactLogPrefixLocked_of_prefix_le hle hsnap, .inl ⟨hle, rfl⟩, rfl, rfl, rfl⟩
  · have hno : ¬ (π.length ≤ n.lastSnapshotIndex ∧ n.log ≠ [] ∧
        n.firstLogIndexLocked = n.lastSnapshotIndex) := by
      rw [h.snapIndex]
      omega
    have hkeeps : n.keepsSuffixLocked π.length (termAt LogRecord.term π π.length) = false := by
      rw [Bool.eq_false_iff]
      exact fun hk => hle ((h.keepsSuffixLocked hgood hπ hsnap).mp hk)
    simp only [RaftNode.compactLogPrefixLocked, RaftNode.restoreLogAfterSnapshotLocked, if_neg hno,
      Bool.true_and, hkeeps, Bool.false_eq_true, if_false]
    refine ⟨⟨mem.term, π, π.length, max mem.commit π.length⟩,
      ⟨h.term, by rw [h.commit], rfl, rfl, ⟨?_, le_rfl, hindexed⟩⟩, .inr ⟨hle, rfl⟩, rfl, rfl, rfl⟩
    rw [headRecord, if_neg (by simp only; omega), List.drop_length]

/-- A boundary no later than the current one changes nothing. -/
theorem Represents.compactLogPrefixLocked_of_le {n : RaftNode} {mem : Replica LogRecord}
    (h : Represents n mem) {index : Nat} (hle : index ≤ mem.snap) (term : Nat) :
    n.compactLogPrefixLocked index term = n := by
  rw [RaftNode.compactLogPrefixLocked, RaftNode.restoreLogAfterSnapshotLocked, if_pos]
  exact ⟨h.snapIndex ▸ hle, h.stores.ne_nil, by rw [h.firstLogIndexLocked, h.snapIndex]⟩

theorem RaftNode.compactLogPrefixLocked_lastApplied (n : RaftNode) (index term : Nat) :
    (n.compactLogPrefixLocked index term).lastApplied ≤ max n.lastApplied index := by
  unfold compactLogPrefixLocked restoreLogAfterSnapshotLocked
  split
  · exact le_max_left _ _
  · exact le_rfl

theorem RaftNode.compactLogPrefixLocked_storage (n : RaftNode) (index term : Nat) :
    (n.compactLogPrefixLocked index term).storage = n.storage := by
  unfold compactLogPrefixLocked restoreLogAfterSnapshotLocked
  split <;> rfl

/-- A prefix with these last index and term has been chosen in a term up to `t`. -/
def Held (H : History NodeId LogRecord) (members : Finset NodeId) (t index term : Nat) : Prop :=
  ∃ π : List LogRecord, π.length = index ∧ termAt LogRecord.term π index = term ∧
    H.ChosenBy members t π

theorem Held.mono_term {t t' index term : Nat} (h : Held H members t index term) (ht : t ≤ t') :
    Held H members t' index term := by
  obtain ⟨π, hlen, hterm, hch⟩ := h
  exact ⟨π, hlen, hterm, hch.mono_term ht⟩

/-- In a history of indexed logs every good log is indexed. -/
theorem indexed_of_good {L : Nat → List LogRecord} (hL : ∀ T, Indexed (L T))
    {ℓ : List LogRecord} (h : Good LogRecord.term L ℓ) : Indexed ℓ := by
  intro i hi
  have hle := h (i + 1) i.succ_pos hi
  have hlt : i < (ℓ.take (i + 1)).length := by
    rw [List.length_take]
    omega
  have := ((hL _).of_le hle) i hlt
  rwa [List.getElem_take] at this

namespace NodeInv

variable {n n' : RaftNode} {mem mem' dur : Replica LogRecord}

/-- The boundary of a chosen snapshot enters the log, in memory. -/
theorem compact (h : NodeInv H members q n mem dur) (hH : H.Valid members LogRecord.term)
    (hindexed : ∀ T, Indexed (H.leaderLog T)) {π : List LogRecord}
    (hπ : H.Chosen members π) (hsnap : mem.snap < π.length) :
    ∃ mem', Represents (n.compactLogPrefixLocked π.length (termAt LogRecord.term π π.length)) mem' ∧
      Installs π mem mem' ∧ Sound H members LogRecord.term q mem' ∧ Evolves mem mem' := by
  have hπgood := hH.chosen_good hπ
  obtain ⟨mem', hrep, hinst⟩ := h.represents.compactLogPrefixLocked h.memSound.good hπgood
    (indexed_of_good hindexed hπgood) hsnap
  have hsound := h.memSound.install hH hπ hsnap.le hinst.1 hinst.2.1 hinst.2.2.1 hinst.2.2.2
  refine ⟨mem', hrep, hinst, hsound, hinst.2.1.ge, hinst.2.2.2 ▸ le_max_left _ _, fun i hi => ?_⟩
  exact h.memSound.install_take hH hπ hinst.1 hi

theorem adoptSnapshotLocked (h : NodeInv H members q n mem dur)
    (hH : H.Valid members LogRecord.term) (hindexed : ∀ T, Indexed (H.leaderLog T))
    {t index term : Nat} (hheld : Held H members t index term) (ht : t ≤ mem.term) :
    ∃ mem', NodeInv H members q (n.adoptSnapshotLocked index term) mem' dur ∧
      Evolves mem mem' := by
  obtain ⟨π, rfl, rfl, hπ⟩ := hheld
  have hπ' := hπ.mono_term ht
  by_cases hsnap : mem.snap < π.length
  · obtain ⟨mem', hrep, hinst, hsound, hev⟩ := h.compact hH hindexed hπ.chosen hsnap
    have hcommit : mem'.commit = max mem'.commit π.length := by
      rw [hinst.2.2.2]
      omega
    have hstorage := n.compactLogPrefixLocked_storage π.length (termAt LogRecord.term π π.length)
    have happ := n.compactLogPrefixLocked_lastApplied π.length (termAt LogRecord.term π π.length)
    refine ⟨mem', ⟨⟨hrep.term, ?_, hrep.snapIndex, hrep.snapTerm, hrep.stores⟩, ?_, hsound,
      h.durSound, h.backed.install hπ' hinst.2.1 hinst.1, ?_⟩, hev⟩
    · simp only [RaftNode.adoptSnapshotLocked, hrep.commit]
      omega
    · simp only [RaftNode.adoptSnapshotLocked, hstorage]
      exact h.durable
    · simp only [RaftNode.adoptSnapshotLocked, hrep.commit]
      have := h.applied
      rw [h.represents.commit] at this
      have := hinst.2.2.2
      omega
  · have hle : π.length ≤ mem.snap := not_lt.mp hsnap
    have hsame := h.represents.compactLogPrefixLocked_of_le hle (termAt LogRecord.term π π.length)
    have hcommit : max n.commitIndex π.length = n.commitIndex := by
      rw [h.represents.commit]
      exact max_eq_left (hle.trans h.memSound.snap_le)
    refine ⟨mem, ?_, .refl mem⟩
    simp only [RaftNode.adoptSnapshotLocked, hsame, hcommit]
    refine ⟨h.represents.congr rfl rfl rfl rfl rfl, h.durable, h.memSound, h.durSound, h.backed, ?_⟩
    have := h.applied
    simp only
    omega

/-- The snapshot worker compacts at a committed index. -/
theorem compactAfterSnapshot (h : NodeInv H members q n mem dur)
    (hH : H.Valid members LogRecord.term) (hindexed : ∀ T, Indexed (H.leaderLog T))
    {index : Nat} (hindex : index ≤ mem.commit) (saved : Bool) :
    ∃ mem' dur', NodeInv H members q (n.compactAfterSnapshot index
      (termAt LogRecord.term mem.log index) saved) mem' dur' ∧ Evolves mem mem' ∧
      mem'.log = mem.log ∧ mem'.term = mem.term ∧ mem'.commit = mem.commit := by
  unfold RaftNode.compactAfterSnapshot
  split
  · rename_i hlt
    rw [h.represents.snapIndex] at hlt
    have hlen : (mem.log.take index).length = index := by
      rw [List.length_take]
      have := h.memSound.commit_le
      omega
    have hterm : termAt LogRecord.term (mem.log.take index) (mem.log.take index).length =
        termAt LogRecord.term mem.log index := by
      rw [hlen, termAt_take LogRecord.term le_rfl]
    obtain ⟨mem', hrep, ⟨hlog, hterm', hsnap', hcommit'⟩, hsound, hev⟩ := h.compact hH hindexed
      (h.memSound.chosen.of_le (take_le_take hindex)) (hlen.symm ▸ hlt)
    rw [hterm, hlen] at hrep
    have hlog' : mem'.log = mem.log := by
      rcases hlog with ⟨-, hlog⟩ | ⟨hnot, -⟩
      · exact hlog
      · exact absurd (take_le _ _) hnot
    have hstorage := n.compactLogPrefixLocked_storage index (termAt LogRecord.term mem.log index)
    have happ := n.compactLogPrefixLocked_lastApplied index (termAt LogRecord.term mem.log index)
    have hmem : NodeInv H members q
        (n.compactLogPrefixLocked index (termAt LogRecord.term mem.log index)) mem' dur := by
      refine ⟨hrep, hstorage.symm ▸ h.durable, hsound, h.durSound,
        h.backed.of_log_eq hlog' hterm'.ge, ?_⟩
      rw [hrep.commit]
      have := h.applied
      rw [h.represents.commit] at this
      omega
    exact ⟨mem', _, hmem.persist saved, hev, hlog', hterm', by omega⟩
  · exact ⟨mem, dur, h, .refl mem, rfl, rfl, rfl⟩

/-! ## Application -/

theorem applyPick (h : NodeInv H members q n mem dur) :
    NodeInv H members q n.applyPick.1 mem dur := by
  have happ : max n.lastApplied n.lastSnapshotIndex ≤ n.commitIndex := by
    refine max_le h.applied ?_
    rw [h.represents.snapIndex, h.represents.commit]
    exact h.memSound.snap_le
  have hn : NodeInv H members q
      { n with lastApplied := max n.lastApplied n.lastSnapshotIndex } mem dur :=
    ⟨h.represents.congr rfl rfl rfl rfl rfl, h.durable, h.memSound, h.durSound, h.backed, happ⟩
  unfold RaftNode.applyPick
  simp only
  split
  · exact hn
  · split <;> exact hn

theorem applyFinish (h : NodeInv H members q n mem dur) {index : Nat}
    (hindex : index ≤ mem.commit) (saved : Bool) :
    ∃ dur', NodeInv H members q (n.applyFinish index saved).1 mem dur' := by
  unfold RaftNode.applyFinish
  split
  · have hn : NodeInv H members q { n with lastApplied := index } mem dur :=
      ⟨h.represents.congr rfl rfl rfl rfl rfl, h.durable, h.memSound, h.durSound, h.backed,
        h.represents.commit ▸ hindex⟩
    exact ⟨_, hn.persist saved⟩
  · exact ⟨dur, h⟩

end NodeInv

/-! ## Recovery -/

theorem Durable.represents_recover {storage : Option PersistentRaftState}
    {dur : Replica LogRecord} (h : Durable storage dur) (hcommitLe : dur.commit ≤ dur.log.length)
    (id : NodeId) (peers : List NodeId) : Represents (RaftNode.recover id peers storage) dur := by
  cases storage with
  | none =>
    simp only [Durable] at h
    subst h
    exact ⟨rfl, rfl, rfl, rfl, ⟨rfl, le_rfl, fun i hi => absurd hi (Nat.not_lt_zero i)⟩⟩
  | some s =>
    obtain ⟨hterm, hcommit, happlied, hstores⟩ := h
    obtain ⟨last, hlast, hindex, -⟩ := hstores.getLast?_index
    have hboundary : (if 0 < (headRecord dur).index ∧
          (headRecord dur).command = kSnapshotMarkerCommand
        then ((headRecord dur).index, (headRecord dur).term) else (0, 0)) =
        (dur.snap, termAt LogRecord.term dur.log dur.snap) := by
      by_cases hzero : dur.snap = 0
      · simp [hzero]
      · have hcommand : (headRecord dur).command = kSnapshotMarkerCommand := by
          simp [headRecord, hzero]
        simp [hcommand, Nat.pos_of_ne_zero hzero]
    simp only [RaftNode.recover, Option.map_some, clampRecoveredHardState, hlast, hindex,
      hstores.head?, hboundary, if_neg hstores.ne_nil]
    refine ⟨hterm, ?_, rfl, rfl, hstores⟩
    simp only [RaftNode.lastLogIndexLocked, hlast, hindex]
    omega

theorem RaftNode.recover_lastApplied (id : NodeId) (peers : List NodeId)
    (storage : Option PersistentRaftState) : (recover id peers storage).lastApplied = 0 := by
  unfold recover
  split <;> rfl

theorem Durable.recover {storage : Option PersistentRaftState} {dur : Replica LogRecord}
    (h : Durable storage dur) (hsound : Sound H members LogRecord.term q dur) (id : NodeId)
    (peers : List NodeId) :
    NodeInv H members q (RaftNode.recover id peers storage) dur dur := by
  refine ⟨h.represents_recover hsound.commit_le id peers, ?_, hsound, hsound, .save hsound, ?_⟩
  · rw [RaftNode.recover_storage]
    exact h
  · rw [RaftNode.recover_lastApplied]
    exact Nat.zero_le _

theorem RaftNode.firstLoadable_mem {σ : Type} {sm : IStateMachine σ} {readable : Nat → Bool}
    {dir : List (Snapshot sm.Image)} {s : Snapshot sm.Image} {kv : σ}
    (h : firstLoadable sm readable dir = some (s, kv)) :
    s ∈ dir ∧ sm.loadSnapshot s.image = some kv := by
  induction dir with
  | nil => cases h
  | cons first rest ih =>
    rw [firstLoadable] at h
    split at h
    · rename_i hload
      cases h
      exact ⟨List.mem_cons_self, hload⟩
    · exact ⟨List.mem_cons_of_mem _ (ih h).1, (ih h).2⟩

theorem mem_listSnapshots {Image : Type} {dir : List (Snapshot Image)} {s : Snapshot Image} :
    s ∈ listSnapshots dir ↔ s ∈ dir := List.mem_insertionSort _

/-- What the constructor makes of the disk. -/
theorem NodeInv.loadLatestSnapshotOnStartup {σ : Type} {sm : IStateMachine σ} {n n' : RaftNode}
    {dur : Replica LogRecord} {kv : σ} (h : NodeInv H members q n dur dur)
    (hH : H.Valid members LogRecord.term) (hindexed : ∀ T, Indexed (H.leaderLog T))
    {config : SnapshotConfig} {dir : List (Snapshot sm.Image)} {readable : Nat → Bool}
    {saved : Bool} (hdir : ∀ s ∈ dir, ∃ t, Held H members t s.index s.term)
    (hload : RaftNode.loadLatestSnapshotOnStartup sm n config dir readable saved = some (n', kv)) :
    ∃ mem' dur', NodeInv H members q n' mem' dur' := by
  unfold RaftNode.loadLatestSnapshotOnStartup at hload
  split at hload
  · cases hload
    exact ⟨dur, dur, h⟩
  · split at hload
    · cases hload
      exact ⟨dur, dur, h⟩
    · rename_i s kv' hfirst
      split at hload
      · cases hload
        have hs := mem_listSnapshots.mp (RaftNode.firstLoadable_mem hfirst).1
        obtain ⟨t, π, hlen, hterm, hπ⟩ := hdir s hs
        have hmem : ∃ mem', Represents (n.compactLogPrefixLocked s.index s.term) mem' ∧
            Sound H members LogRecord.term q mem' ∧
            (s.index ≤ mem'.commit) := by
          by_cases hsnap : dur.snap < s.index
          · obtain ⟨mem', hrep, hinst, hsound, -⟩ :=
              h.compact hH hindexed hπ.chosen (hlen.symm ▸ hsnap)
            rw [hlen, hterm] at hrep
            exact ⟨mem', hrep, hsound, by have := hinst.2.2.2; omega⟩
          · refine ⟨dur, ?_, h.memSound, ?_⟩
            · rw [h.represents.compactLogPrefixLocked_of_le (by omega) s.term]
              exact h.represents
            · have := h.memSound.snap_le
              omega
        obtain ⟨mem', hrep, hsound, hle⟩ := hmem
        have hcommit : max mem'.commit s.index = mem'.commit := by omega
        refine ⟨mem', mem', ?_⟩
        have hrep' : Represents { n.compactLogPrefixLocked s.index s.term with
            commitIndex := max (n.compactLogPrefixLocked s.index s.term).commitIndex s.index
            lastApplied := s.index } mem' :=
          ⟨hrep.term, by simp only [hrep.commit]; exact hcommit, hrep.snapIndex, hrep.snapTerm,
            hrep.stores⟩
        exact ⟨hrep'.congr rfl rfl rfl rfl rfl, hrep'.persists (le_max_right _ _), hsound, hsound,
          .save hsound, le_max_right _ _⟩
      · cases hload

end CquptRaft
