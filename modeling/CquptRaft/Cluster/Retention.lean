import CquptRaft.Cluster.Directories

/-!
# What a member keeps of a leader's log

A member keeps a record of a leader when it has the record in its log, or a snapshot boundary from
the index of the record on. No section of a node takes such a record back as long as the node stays
in the term of the leader: entries of another leader are refused, and whatever a snapshot stands for
is a prefix of the leader's log. What is in memory is on disk, or the snapshot directory reaches it,
so a restart that loads the newest snapshot finds it again.
-/

namespace CquptRaft

open Replication Voting

variable {σ : Type} {sm : IStateMachine σ} {cfg : ClusterConfig} {H H' : History NodeId LogRecord}
  {members : Finset NodeId} {q : NodeId}

/-! ## Nodes -/

namespace RaftNode

/-- The node has the record `r` at index `j`, or a snapshot boundary from there on. -/
def Keeps (n : RaftNode) (j : Nat) (r : LogRecord) : Prop :=
  j ≤ n.lastSnapshotIndex ∨ n.logAtIndexLocked j = some r

instance (n : RaftNode) (j : Nat) (r : LogRecord) : Decidable (n.Keeps j r) :=
  inferInstanceAs (Decidable (_ ∨ _))

theorem Keeps.congr {n n' : RaftNode} {j : Nat} {r : LogRecord} (h : n.Keeps j r)
    (hlog : n'.log = n.log) (hsnap : n'.lastSnapshotIndex = n.lastSnapshotIndex) :
    n'.Keeps j r := by
  rcases h with hle | hat
  · exact .inl (hsnap ▸ hle)
  · exact .inr ((logAtIndexLocked_of_log_eq hlog hsnap j).trans hat)

theorem LogInv.logAtIndexLocked_iff {n : RaftNode} (h : LogInv n) {j : Nat} {r : LogRecord} :
    n.logAtIndexLocked j = some r ↔ r ∈ n.log ∧ r.index = j := by
  constructor
  · intro hat
    rw [RaftNode.logAtIndexLocked] at hat
    split at hat
    · rename_i hhas
      obtain ⟨record, hget, hindex⟩ := h.getElem?_logOffsetLocked hhas
      obtain rfl : record = r := Option.some.inj (hget.symm.trans hat)
      exact ⟨List.mem_of_getElem? hget, hindex⟩
    · cases hat
  · rintro ⟨hmem, rfl⟩
    obtain ⟨k, hk, rfl⟩ := List.mem_iff_getElem.mp hmem
    have hindex := h.consecutive k hk
    have hhas : n.hasLogAtIndexLocked (n.log[k]).index = true := by
      rw [h.hasLogAtIndexLocked]
      omega
    rw [RaftNode.logAtIndexLocked, if_pos hhas, logOffsetLocked, h.firstLogIndexLocked, hindex,
      Nat.add_sub_cancel_left, List.getElem?_eq_getElem hk]

theorem acceptLeaderLocked_currentTerm {n : RaftNode} {term : Nat} (h : ¬ term < n.currentTerm)
    (leaderId : NodeId) (saved : Bool) :
    (n.acceptLeaderLocked term leaderId saved).1.currentTerm = term := by
  unfold acceptLeaderLocked
  split
  · rw [becomeFollowerLocked_currentTerm]
    omega
  · simp only [resetElectionTimerLocked, cancelElectionTimerLocked]
    omega

theorem onAppendEntries_currentTerm {n : RaftNode} {request : AppendEntriesRequest}
    (h : ¬ request.term < n.currentTerm) {termSaved logSaved commitSaved : Bool} :
    (n.onAppendEntries request termSaved logSaved commitSaved).1.currentTerm = request.term := by
  have haccept := acceptLeaderLocked_currentTerm h request.leaderId termSaved
  unfold onAppendEntries
  rw [if_neg h]
  generalize n.acceptLeaderLocked request.term request.leaderId termSaved = res at haccept
  obtain ⟨m, ok⟩ := res
  simp only at haccept ⊢
  split
  · exact haccept
  · split
    · exact haccept
    · rw [← haccept]
      have hframe := appendLoop_frame request.entries ⟨m, false, request.prevLogIndex⟩
      unfold appendEntriesBody
      split <;> rename_i heq <;> rw [heq] at hframe
      · rw [hframe]
      · grind [persistStateLocked]

end RaftNode

/-- The record at index `j` of a leader's log is in a good log when the leader's log up to there
is. -/
theorem getElem?_iff_written_le {ℓ : List LogRecord} (hgood : Good LogRecord.term H.leaderLog ℓ)
    (hH : H.Valid members LogRecord.term) {T j : Nat} {r : LogRecord} (hj : 0 < j)
    (hr : (H.leaderLog T)[j - 1]? = some r) : ℓ[j - 1]? = some r ↔ H.written T j <+: ℓ := by
  obtain ⟨k, rfl⟩ : ∃ k, j = k + 1 := ⟨j - 1, by omega⟩
  rw [Nat.add_sub_cancel] at hr ⊢
  have hlong := (List.getElem?_eq_some_iff.mp hr).1
  constructor
  · intro hat
    have hlen := (List.getElem?_eq_some_iff.mp hat).1
    have hterm : termAt LogRecord.term ℓ (k + 1) =
        termAt LogRecord.term (H.leaderLog T) (k + 1) := by
      simp only [termAt, hat, hr]
    rw [History.written,
      ← hgood.take_eq_of_termAt_eq (hH.leaderLog_good T) hlen hlong hterm]
    exact take_le ℓ _
  · intro hle
    have hlt : k < (H.written T (k + 1)).length := by
      rw [History.written, List.length_take]
      omega
    have hget := List.getElem?_eq_getElem hlt
    rw [List.getElem?_eq_getElem (hlt.trans_le hle.length_le), ← hle.getElem hlt, ← hget,
      History.written, List.getElem?_take_of_lt (Nat.lt_succ_self k), hr]

/-- What a node keeps, in terms of its replica. -/
theorem Represents.keeps_iff {n : RaftNode} {mem : Replica LogRecord} (h : Represents n mem)
    (hgood : Good LogRecord.term H.leaderLog mem.log) (hH : H.Valid members LogRecord.term)
    {T j : Nat} {r : LogRecord} (hj : 0 < j) (hr : (H.leaderLog T)[j - 1]? = some r) :
    n.Keeps j r ↔ j ≤ mem.snap ∨ H.written T j <+: mem.log := by
  rw [RaftNode.Keeps, h.snapIndex, ← getElem?_iff_written_le hgood hH hj hr]
  rcases le_or_gt j mem.snap with hle | hlt
  · simp only [hle, true_or]
  · rcases le_or_gt j mem.log.length with hlen | hlen
    · rw [h.logAtIndexLocked hlt hlen]
    · rw [h.logAtIndexLocked_none (by omega), List.getElem?_eq_none (by omega)]

namespace NodeInv

variable {n : RaftNode} {mem dur : Replica LogRecord} {T j : Nat} {r : LogRecord}

/-- A snapshot of a prefix that was chosen up to the term of the leader takes nothing of the
leader's log back. -/
theorem compact_keeps (h : NodeInv H members q n mem dur) (hH : H.Valid members LogRecord.term)
    (hindexed : ∀ T, Indexed (H.leaderLog T)) (hT : H.Elected T) (hj : 0 < j)
    (hr : (H.leaderLog T)[j - 1]? = some r) {index term : Nat}
    (hheld : Held H members T index term) (hkeeps : n.Keeps j r) :
    (n.compactLogPrefixLocked index term).Keeps j r := by
  obtain ⟨π, rfl, rfl, hπ⟩ := hheld
  by_cases hsnap : mem.snap < π.length
  · obtain ⟨mem', hrep, ⟨hlog, -, hsnap', -⟩, hsound, -⟩ := h.compact hH hindexed hπ.chosen hsnap
    rw [hrep.keeps_iff hsound.good hH hj hr, hsnap']
    rcases le_or_gt j π.length with hle | hlt
    · exact .inl hle
    · -- behind the boundary the leader's log starts with what the snapshot stands for
      right
      have hwritten : H.written T j <+: mem.log :=
        ((h.represents.keeps_iff h.memSound.good hH hj hr).mp hkeeps).resolve_left (by omega)
      have hlong := (List.getElem?_eq_some_iff.mp hr).1
      have hlen : (H.written T j).length = j := by
        rw [History.written, List.length_take]
        omega
      have hle : π <+: H.written T j :=
        List.prefix_of_prefix_length_le (hH.chosenBy_le hπ hT le_rfl) (take_le _ j) (by omega)
      rcases hlog with ⟨-, hlog⟩ | ⟨hnot, -⟩
      · rw [hlog]
        exact hwritten
      · exact absurd (hle.trans hwritten) hnot
  · rw [h.represents.compactLogPrefixLocked_of_le (not_lt.mp hsnap)]
    exact hkeeps

/-- A request of the leader of the node's own term takes nothing of the leader's log back. A later
request raises the term, an earlier one is refused. -/
theorem onAppendEntries_keeps {request : AppendEntriesRequest} (h : NodeInv H members q n mem dur)
    (hH : H.Valid members LogRecord.term) (hindexed : ∀ T, Indexed (H.leaderLog T)) (hj : 0 < j)
    (hr : (H.leaderLog mem.term)[j - 1]? = some r) (hw : Window H members request)
    (hok : ¬ n.Overreaches request) {termSaved logSaved commitSaved : Bool}
    (hterm : (n.onAppendEntries request termSaved logSaved commitSaved).1.currentTerm =
      n.currentTerm) (hkeeps : n.Keeps j r) :
    (n.onAppendEntries request termSaved logSaved commitSaved).1.Keeps j r := by
  by_cases hstale : request.term < n.currentTerm
  · rw [RaftNode.onAppendEntries, if_pos hstale]
    exact hkeeps
  · have hsame : request.term = mem.term := by
      rw [RaftNode.onAppendEntries_currentTerm hstale] at hterm
      rw [hterm, h.represents.term]
    obtain ⟨mem', dur', happended⟩ := h.onAppendEntries hH hindexed hw hok termSaved logSaved
      commitSaved
    have hsnap : mem.snap ≤ mem'.snap := by
      have hprogress := (n.onAppendEntries_progress request termSaved logSaved commitSaved).snapshot
      rwa [h.represents.snapIndex, happended.inv.represents.snapIndex] at hprogress
    rw [h.represents.keeps_iff h.memSound.good hH hj hr] at hkeeps
    rw [happended.inv.represents.keeps_iff happended.inv.memSound.good hH hj hr]
    rcases hkeeps with hle | hle
    · exact .inl (hle.trans hsnap)
    · refine .inr (happended.keeps _ hle ?_)
      rw [hsame]
      exact take_le _ j

/-- No section takes a record of the leader of the node's term back, as long as the term stays. -/
theorem call_keeps {Image : Type} (h : NodeInv H members q n mem dur)
    (hH : H.Valid members LogRecord.term) (hindexed : ∀ T, Indexed (H.leaderLog T))
    (hT : H.Elected mem.term) (hj : 0 < j) (hr : (H.leaderLog mem.term)[j - 1]? = some r)
    (c : Call Image)
    (hboundary : ∀ index term, c.boundary = some (index, term) → Held H members mem.term index term)
    (happend : ∀ request termSaved logSaved commitSaved,
      c = .onAppendEntries request termSaved logSaved commitSaved →
        Window H members request ∧ ¬ n.Overreaches request)
    (hterm : (n.call c).currentTerm = n.currentTerm) (hkeeps : n.Keeps j r) :
    (n.call c).Keeps j r := by
  have hinv := h.represents.logInv
  by_cases hc : c.writesLog = false
  · obtain ⟨hlog, hsnap, -⟩ := n.call_sameLog c hc
    exact hkeeps.congr hlog hsnap
  cases c with
  | appendLocalLogUnlocked commandData saved =>
    rcases hkeeps with hle | hat
    · exact .inl (hle.trans (hinv.progress _).snapshot)
    · obtain ⟨hmem, hindex⟩ := hinv.logAtIndexLocked_iff.mp hat
      refine .inr ((hinv.call _).logAtIndexLocked_iff.mpr ⟨?_, hindex⟩)
      cases saved with
      | false => exact hmem
      | true => exact List.mem_append_left _ hmem
  | onAppendEntries request termSaved logSaved commitSaved =>
    obtain ⟨hw, hok⟩ := happend _ _ _ _ rfl
    exact h.onAppendEntries_keeps hH hindexed hj hr hw hok hterm hkeeps
  | installFinish request response saved =>
    have hcompact := h.compact_keeps hH hindexed hT hj hr (hboundary _ _ rfl) hkeeps
    simp only [RaftNode.call, RaftNode.installFinish]
    split
    · exact hkeeps
    · split <;> exact hcompact.congr rfl rfl
  | compactAfterSnapshot index term saved =>
    have hcompact := h.compact_keeps hH hindexed hT hj hr (hboundary _ _ rfl) hkeeps
    simp only [RaftNode.call, RaftNode.compactAfterSnapshot]
    split
    · exact hcompact.congr (by simp) (by simp)
    · exact hkeeps
  | _ => exact absurd rfl hc

end NodeInv

/-! ## Members -/

/-- The member has a snapshot boundary from index `j` on, and its directory a snapshot. -/
structure Reached {Image : Type} (m : Member σ Image) (j : Nat) : Prop where
  memory : m.up = true → j ≤ m.node.lastSnapshotIndex
  disk : Covers m.snapshots j

/-- The member keeps the record, in memory and on disk. -/
structure Retains {Image : Type} (m : Member σ Image) (j : Nat) (r : LogRecord) : Prop where
  memory : m.up = true → m.node.Keeps j r
  disk : Covers m.snapshots j ∨ ∃ state ∈ m.node.storage, r ∈ state.log

/-- The member has acknowledged the record to the leader of term `T`, and keeps it as long as it
knows no later term. -/
def Acked {Image : Type} (m : Member σ Image) (T j : Nat) (r : LogRecord) : Prop :=
  Reached m j ∨ T < m.node.durableTerm ∨ T = m.node.durableTerm ∧ Retains m j r

section Members

variable {Image : Type} {m : Member σ Image} {T j : Nat} {r : LogRecord}

theorem Reached.of_le {k : Nat} (h : Reached m k) (hle : j ≤ k) : Reached m j :=
  ⟨fun hup => hle.trans (h.memory hup), h.disk.of_le hle⟩

/-- The first record of a log is the boundary. -/
theorem RaftNode.LogInv.covers_boundary {n : RaftNode} {dir : List (Snapshot Image)}
    (h : n.LogInv) (hhead : ∀ first ∈ n.log.head?, Covers dir first.index) :
    Covers dir n.lastSnapshotIndex := by
  obtain ⟨first, rest, hlog⟩ := List.exists_cons_of_ne_nil h.nonempty
  have hcovers := hhead first (by rw [hlog]; rfl)
  have hindex := h.firstLogIndexLocked
  rw [RaftNode.firstLogIndexLocked, hlog] at hindex
  rwa [← hindex]

theorem RaftNode.Keeps.covers_or_mem {n : RaftNode} {dir : List (Snapshot Image)}
    (h : n.Keeps j r) (hinv : n.LogInv) (hhead : ∀ first ∈ n.log.head?, Covers dir first.index) :
    Covers dir j ∨ r ∈ n.log := by
  rcases h with hle | hat
  · exact .inl ((hinv.covers_boundary hhead).of_le hle)
  · exact .inr (hinv.logAtIndexLocked_iff.mp hat).1

theorem CoveredMember.reached (h : CoveredMember m) (hup : m.up = true) (hinv : m.node.LogInv)
    (hj : j ≤ m.node.lastSnapshotIndex) : Reached m j :=
  ⟨fun _ => hj, (hinv.covers_boundary (h.memory hup)).of_le hj⟩

/-- What a running member keeps in memory is kept by its disk. -/
theorem CoveredMember.retains (h : CoveredMember m) (hup : m.up = true) (hinv : m.node.LogInv)
    (hkeeps : m.node.Keeps j r) : Retains m j r := by
  refine ⟨fun _ => hkeeps, ?_⟩
  rcases hkeeps with hle | hat
  · exact .inl ((hinv.covers_boundary (h.memory hup)).of_le hle)
  · obtain ⟨hmem, rfl⟩ := hinv.logAtIndexLocked_iff.mp hat
    by_cases hcovers : Covers m.snapshots r.index
    · exact .inl hcovers
    · exact .inr (h.stored hup r hmem hcovers)

end Members

/-- A running process that still runs behind a step has moved by one section. -/
theorem Retains.act {id : NodeId} {net : List (Message sm.Image)} {m m' : Member σ sm.Image}
    {mem dur : Replica LogRecord} {action : Action} {outbox : Member.Outbox sm.Image} {j : Nat}
    {r : LogRecord} (h : Retains m j r) (hup : m.up = true)
    (hp : ProcessInv H members id m mem dur) (hknown : KnownMember H members m)
    (hcovered : CoveredMember m') (hH : H.Valid members LogRecord.term)
    (hindexed : ∀ T, Indexed (H.leaderLog T)) (hT : H.Elected m.node.durableTerm) (hj : 0 < j)
    (hr : (H.leaderLog m.node.durableTerm)[j - 1]? = some r)
    (hnet : ∀ message ∈ net, MessageInv H members message)
    (hguard : ∀ request ∈ action.appendRequest net, ¬ m.node.Overreaches request)
    (hstep : CquptRaft.act sm cfg id net m action = some (m', outbox))
    (hterm : m'.node.currentTerm = m.node.currentTerm) : Retains m' j r := by
  have hdurable : m.node.durableTerm = mem.term := by
    rw [← (hknown.term hup).durable, hp.node.represents.term]
  by_cases hup' : m'.up = true
  · have hmoved : m'.node.LogInv ∧ m'.node.Keeps j r := by
      rcases act_call hstep with hsame | ⟨-, c, hcall, hgrounded⟩
      · rw [hsame]
        exact ⟨hp.node.represents.logInv, h.memory hup⟩
      · rw [hcall] at hterm ⊢
        refine ⟨hp.node.represents.logInv.call c, ?_⟩
        rw [hdurable] at hT hr
        refine hp.node.call_keeps hH hindexed hT hj hr c (fun index term hc => ?_)
          (fun request termSaved logSaved commitSaved hc => ?_) hterm (h.memory hup)
        · rw [← hdurable]
          exact hknown.held_boundary hup hp hH hgrounded hc
        · subst hc
          obtain ⟨k, message, rfl, hk, hpayload⟩ := hgrounded
          have hmessage := hnet message (List.mem_of_getElem? hk)
          rw [MessageInv, hpayload] at hmessage
          refine ⟨hmessage.1, hguard request ?_⟩
          simp [Action.appendRequest, appendRequestAt, hk, hpayload]
    exact hcovered.retains hup' hmoved.1 hmoved.2
  · -- a process that is gone has crashed
    refine ⟨fun hc => absurd hc hup', ?_⟩
    rcases act_call hstep with hsame | ⟨hsame, -⟩
    · rw [hsame]
      exact h.disk.imp_left fun hcovers => hcovers.mono (act_covers hstep)
    · exact absurd (hsame.trans hup) hup'

theorem Reached.act {id : NodeId} {net : List (Message sm.Image)} {m m' : Member σ sm.Image}
    {action : Action} {outbox : Member.Outbox sm.Image} {j : Nat} (h : Reached m j)
    (hup : m.up = true) (hinv : m.node.LogInv)
    (hstep : CquptRaft.act sm cfg id net m action = some (m', outbox)) : Reached m' j := by
  refine ⟨fun _ => (h.memory hup).trans ?_, h.disk.mono (act_covers hstep)⟩
  rcases act_call hstep with hsame | ⟨-, c, hcall, -⟩
  · rw [hsame]
  · rw [hcall]
    exact (hinv.progress c).snapshot

/-! ## Restarts -/

/-- A restart loads the newest snapshot of the directory. -/
def Member.loadsNewest {Image : Type} (cfg : ClusterConfig) (id : NodeId) (m : Member σ Image) :
    Action → Bool
  | .restart readable _ _ => (listSnapshots m.snapshots).head?.all fun s =>
    (cfg.snapshot id).enabled && (cfg.snapshot id).loadOnStartup && readable s.index
  | _ => true

/-- The first snapshot of the list is loaded when it can be. -/
theorem RaftNode.firstLoadable_head {readable : Nat → Bool} {dir : List (Snapshot sm.Image)}
    {s : Snapshot sm.Image} (hs : s ∈ dir.head?) (hreadable : readable s.index = true)
    (hloads : Loads sm s.image) : ∃ kv, firstLoadable sm readable dir = some (s, kv) := by
  obtain ⟨rest, rfl⟩ := List.head?_eq_some_iff.mp hs
  obtain ⟨kv, hkv⟩ := Option.isSome_iff_exists.mp hloads
  refine ⟨kv, ?_⟩
  simp only [firstLoadable, hreadable, hkv]

/-- Behind such a restart the log begins with the newest snapshot, when there is one. -/
theorem RaftNode.Recovered.newest {m : Member σ sm.Image} {n₀ n : RaftNode} {id : NodeId}
    {readable : Nat → Bool} {saved : Bool} {replaySaved : Nat → Bool}
    (h : Recovered sm n₀ (cfg.snapshot id) m.snapshots readable n)
    (hloads : LoadsMember sm m)
    (hnewest : m.loadsNewest cfg id (.restart readable saved replaySaved) = true) :
    m.snapshots = [] ∧ n.log = n₀.log ∧ n.lastSnapshotIndex = n₀.lastSnapshotIndex ∨
      ∃ s ∈ m.snapshots, (∀ s' ∈ m.snapshots, s'.index ≤ s.index) ∧
        n.log = (n₀.compactLogPrefixLocked s.index s.term).log ∧
        n.lastSnapshotIndex = (n₀.compactLogPrefixLocked s.index s.term).lastSnapshotIndex := by
  cases hhead : (listSnapshots m.snapshots).head? with
  | none =>
    have hempty : m.snapshots = [] := by
      have hlist := List.head?_eq_none_iff.mp hhead
      exact List.eq_nil_iff_forall_not_mem.mpr fun s hs => by
        have hmem := mem_listSnapshots.mpr hs
        rw [hlist] at hmem
        cases hmem
    left
    rcases h.log with ⟨-, hlog⟩ | ⟨s, kv, hfirst, -⟩
    · exact ⟨hempty, hlog⟩
    · have hmem := mem_listSnapshots.mp (firstLoadable_mem hfirst).1
      rw [hempty] at hmem
      cases hmem
  | some newest =>
    simp only [Member.loadsNewest, hhead, Option.all_some, Bool.and_eq_true] at hnewest
    obtain ⟨⟨henabled, hstartup⟩, hreadable⟩ := hnewest
    obtain ⟨hmem, hmax⟩ := listSnapshots_head hhead
    obtain ⟨kv, hfirst⟩ := firstLoadable_head hhead hreadable (hloads.snapshots newest hmem)
    right
    rcases h.log with ⟨hoff, -⟩ | ⟨s, kv', hfirst', hlog⟩
    · rw [henabled, hstartup, hfirst] at hoff
      simp at hoff
    · rw [hfirst] at hfirst'
      cases hfirst'
      exact ⟨newest, hmem, hmax, hlog⟩

theorem RaftNode.le_compactLogPrefixLocked (n : RaftNode) (index term : Nat) :
    index ≤ (n.compactLogPrefixLocked index term).lastSnapshotIndex := by
  unfold compactLogPrefixLocked restoreLogAfterSnapshotLocked
  split
  · rename_i hle
    exact hle.1
  · exact le_rfl

/-- A restart that loads the newest snapshot has a boundary as far as the directory reaches. -/
theorem Covers.recovered {m : Member σ sm.Image} {n₀ n : RaftNode} {id : NodeId}
    {readable : Nat → Bool} {saved : Bool} {replaySaved : Nat → Bool} {j : Nat}
    (h : Covers m.snapshots j)
    (hn : RaftNode.Recovered sm n₀ (cfg.snapshot id) m.snapshots readable n)
    (hloads : LoadsMember sm m)
    (hnewest : m.loadsNewest cfg id (.restart readable saved replaySaved) = true) :
    j ≤ n.lastSnapshotIndex := by
  rcases h with rfl | ⟨s', hs', hj⟩
  · exact Nat.zero_le _
  · rcases hn.newest hloads hnewest with ⟨hempty, -⟩ | ⟨s, -, hmax, -, hsnap⟩
    · rw [hempty] at hs'
      cases hs'
    · rw [hsnap]
      exact hj.trans ((hmax s' hs').trans (n₀.le_compactLogPrefixLocked s.index s.term))

/-- A restart that loads the newest snapshot finds what the disk keeps of the leader of its term,
and leaves it there. -/
theorem Retains.recovered {m : Member σ sm.Image} {n : RaftNode} {id : NodeId}
    {readable : Nat → Bool} {saved : Bool} {replaySaved : Nat → Bool} {j : Nat} {r : LogRecord}
    (h : Retains m j r) (hm : MemberInv H members id m) (hknown : KnownMember H members m)
    (hcovered : CoveredMember m) (hloads : LoadsMember sm m) (hH : H.Valid members LogRecord.term)
    (hindexed : ∀ T, Indexed (H.leaderLog T)) (hT : H.Elected m.node.durableTerm) (hj : 0 < j)
    (hr : (H.leaderLog m.node.durableTerm)[j - 1]? = some r)
    (hn : RaftNode.Recovered sm (RaftNode.recover id (cfg.peers id) m.node.storage)
      (cfg.snapshot id) m.snapshots readable n)
    (hnewest : m.loadsNewest cfg id (.restart readable saved replaySaved) = true) :
    n.Keeps j r ∧ (Covers m.snapshots j ∨ ∃ state ∈ n.storage, r ∈ state.log) := by
  rcases h.disk with hcovers | ⟨state, hstate, hmem⟩
  · exact ⟨.inl (hcovers.recovered hn hloads hnewest), .inl hcovers⟩
  · obtain ⟨dur, hdur, hsound⟩ := hm.durable
    have hinv := hdur.recover hsound id (cfg.peers id)
    have hkeeps : (RaftNode.recover id (cfg.peers id) m.node.storage).Keeps j r := by
      refine .inr (hinv.represents.logInv.logAtIndexLocked_iff.mpr ⟨?_, ?_⟩)
      · rw [Option.mem_def.mp hstate]
        have hlog : (clampRecoveredHardState state).log ≠ [] := List.ne_nil_of_mem hmem
        simp only [RaftNode.recover, Option.map_some, if_neg hlog]
        exact hmem
      · obtain ⟨hlt, rfl⟩ := List.getElem?_eq_some_iff.mp hr
        rw [hindexed _ _ hlt]
        omega
    -- the log of the new process is the one on the disk, or this one behind the newest snapshot
    obtain ⟨n₁, hinv₁, hkeeps₁, hlog, hsnap⟩ : ∃ n₁ : RaftNode, n₁.LogInv ∧ n₁.Keeps j r ∧
        n.log = n₁.log ∧ n.lastSnapshotIndex = n₁.lastSnapshotIndex := by
      rcases hn.newest hloads hnewest with ⟨-, hlog, hsnap⟩ | ⟨s, hs, -, hlog, hsnap⟩
      · exact ⟨_, hinv.represents.logInv, hkeeps, hlog, hsnap⟩
      · exact ⟨_, hinv.represents.logInv.compactLogPrefixLocked s.index s.term,
          hinv.compact_keeps hH hindexed hT hj hr (hknown.snapshots s hs) hkeeps, hlog, hsnap⟩
    refine ⟨hkeeps₁.congr hlog hsnap, ?_⟩
    rcases hn.storage with hsame | ⟨state', hstate', hlog'⟩
    · rw [hsame, RaftNode.recover_storage]
      exact .inr ⟨state, hstate, hmem⟩
    · rw [hlog] at hlog'
      have hhead := (hcovered.recovered hn).1
      rw [hlog] at hhead
      refine (hkeeps₁.covers_or_mem hinv₁ hhead).imp_right fun hr₁ => ?_
      exact ⟨state', hstate', hlog' ▸ hr₁⟩

theorem Retains.restart {m : Member σ sm.Image} {id : NodeId} {readable : Nat → Bool}
    {saved : Bool} {replaySaved : Nat → Bool} {j : Nat} {r : LogRecord} (h : Retains m j r)
    (hdown : m.up = false) (hm : MemberInv H members id m) (hknown : KnownMember H members m)
    (hcovered : CoveredMember m) (hloads : LoadsMember sm m) (hH : H.Valid members LogRecord.term)
    (hindexed : ∀ T, Indexed (H.leaderLog T)) (hT : H.Elected m.node.durableTerm) (hj : 0 < j)
    (hr : (H.leaderLog m.node.durableTerm)[j - 1]? = some r)
    (hnewest : m.loadsNewest cfg id (.restart readable saved replaySaved) = true) :
    Retains (m.restart sm cfg id readable saved replaySaved) j r := by
  obtain ⟨n, ⟨hn, ⟨kv, heq⟩ | heq⟩ | heq⟩ :=
    m.restart_recovered cfg id readable saved replaySaved <;> rw [heq]
  · obtain ⟨hkeeps, hdisk⟩ := h.recovered hm hknown hcovered hloads hH hindexed hT hj hr hn hnewest
    exact ⟨fun _ => hkeeps, hdisk⟩
  · obtain ⟨-, hdisk⟩ := h.recovered hm hknown hcovered hloads hH hindexed hT hj hr hn hnewest
    exact ⟨fun hup => absurd (hdown.symm.trans hup) Bool.false_ne_true, hdisk⟩
  · exact h

theorem Reached.restart {m : Member σ sm.Image} {id : NodeId} {readable : Nat → Bool}
    {saved : Bool} {replaySaved : Nat → Bool} {j : Nat} (h : Reached m j) (hdown : m.up = false)
    (hloads : LoadsMember sm m)
    (hnewest : m.loadsNewest cfg id (.restart readable saved replaySaved) = true) :
    Reached (m.restart sm cfg id readable saved replaySaved) j := by
  obtain ⟨n, ⟨hn, ⟨kv, heq⟩ | heq⟩ | heq⟩ :=
    m.restart_recovered cfg id readable saved replaySaved <;> rw [heq]
  · exact ⟨fun _ => h.disk.recovered hn hloads hnewest, h.disk⟩
  · exact ⟨fun hup => absurd (hdown.symm.trans hup) Bool.false_ne_true, h.disk⟩
  · exact h

/-! ## Runs -/

/-- The step saves every higher term it learns of, and loads the newest snapshot if it is a
restart. -/
def Cluster.Keeping {Image : Type} (cfg : ClusterConfig) (c : Cluster σ Image) (id : NodeId)
    (action : Action) : Prop :=
  c.Guarded id action ∧ SavesTerm c.net (c.members id) action ∧
    (c.members id).loadsNewest cfg id action = true

instance {Image : Type} (c : Cluster σ Image) (id : NodeId) (action : Action) :
    Decidable (c.Keeping cfg id action) := inferInstanceAs (Decidable (_ ∧ _))

/-- Every member knows its boundaries, has them in its directory and can load them. -/
structure RetentionInv (cfg : ClusterConfig) (H : History NodeId LogRecord)
    (c : Cluster σ sm.Image) : Prop extends KnownInv cfg H c where
  covered : ∀ p ∈ cfg.ids, CoveredMember (c.members p)
  loads : LoadsInv cfg c

theorem RetentionInv.init : RetentionInv cfg emptyHistory (Cluster.init sm cfg) where
  toKnownInv := .init
  covered p _ := by
    refine ⟨⟨?_, ?_, ?_⟩, ?_, ?_, ?_⟩ <;>
      simp [Cluster.init, Member.fresh, RaftNode.recover_storage]
  loads := .init

theorem RetentionInv.step {c c' : Cluster σ sm.Image} {id : NodeId} {action : Action}
    (h : RetentionInv cfg H c) (hkeeping : c.Keeping cfg id action)
    (hmoved : c.step sm cfg id action = some c') :
    ∃ H', History.Extends H H' ∧ RetentionInv cfg H' c' := by
  obtain ⟨H', hext, hknown⟩ := h.toKnownInv.step ⟨id, action, ⟨hkeeping.1, hkeeping.2.1⟩, hmoved⟩
  refine ⟨H', hext, hknown, fun p hp => ?_, h.loads.step ⟨id, action, hmoved⟩⟩
  obtain ⟨hid, m, outbox, hm, rfl⟩ := Cluster.step_cases hmoved
  by_cases hpid : p = id
  · subst hpid
    simp only [Function.update_self]
    rcases memberStep_cases hm with ⟨hup, hm⟩ | ⟨hdown, -, _, _, _, -, rfl⟩
    · obtain ⟨mem, dur, hprocess⟩ := h.sim.process hp hup
      exact (h.covered p hp).act hup hprocess h.sim.valid h.sim.indexed h.sim.net hm
    · exact (h.covered p hp).restart hdown p _ _ _
  · simp only [Function.update_of_ne hpid]
    exact h.covered p hp

/-- What a member has acknowledged stays acknowledged. -/
theorem Acked.step {c c' : Cluster σ sm.Image} {id p : NodeId} {action : Action} {T j : Nat}
    {r : LogRecord} (h : RetentionInv cfg H c) (h' : RetentionInv cfg H' c')
    (hkeeping : c.Keeping cfg id action) (hmoved : c.step sm cfg id action = some c')
    (hT : H.Elected T) (hj : 0 < j) (hr : (H.leaderLog T)[j - 1]? = some r)
    (hacked : Acked (c.members p) T j r) : Acked (c'.members p) T j r := by
  obtain ⟨hid, m, outbox, hm, rfl⟩ := Cluster.step_cases hmoved
  by_cases hpid : p = id
  · subst hpid
    have hcovered := h'.covered p hid
    simp only [Function.update_self] at hcovered ⊢
    rcases memberStep_cases hm with
      ⟨hup, hm⟩ | ⟨hdown, -, readable, saved, replaySaved, rfl, rfl⟩
    · obtain ⟨mem, dur, hprocess⟩ := h.sim.process hid hup
      have hknown := h.known p hid
      have hterms := (hknown.term hup).act hkeeping.2.1 hm
      have hmono := (hknown.act hup hprocess h.sim.valid hkeeping.2.1 hm).2
      rcases hacked with hreached | hlater | ⟨rfl, hretains⟩
      · exact .inl (hreached.act hup hprocess.node.represents.logInv hm)
      · exact .inr (.inl (hlater.trans_le hmono))
      · rcases hmono.lt_or_eq with hlt | heq
        · exact .inr (.inl hlt)
        · refine .inr (.inr ⟨heq, ?_⟩)
          have hterm : m.node.currentTerm = (c.members p).node.currentTerm := by
            rw [hterms.kept.durable (hknown.term hup).durable, (hknown.term hup).durable, heq]
          exact hretains.act hup hprocess hknown hcovered h.sim.valid h.sim.indexed hT hj hr
            h.sim.net hkeeping.1.1 hm hterm
    · have hterm := ((c.members p).restart_term cfg p readable saved replaySaved).1
      have hloads := h.loads.members p hid
      rcases hacked with hreached | hlater | ⟨rfl, hretains⟩
      · exact .inl (hreached.restart hdown hloads hkeeping.2.2)
      · exact .inr (.inl (hterm ▸ hlater))
      · exact .inr (.inr ⟨hterm.symm, hretains.restart hdown (h.sim.members p hid) (h.known p hid)
          (h.covered p hid) hloads h.sim.valid h.sim.indexed hT hj hr hkeeping.2.2⟩)
  · simp only [Function.update_of_ne hpid]
    exact hacked

theorem Reached.step {c c' : Cluster σ sm.Image} {id p : NodeId} {action : Action} {j : Nat}
    (h : RetentionInv cfg H c) (hkeeping : c.Keeping cfg id action)
    (hmoved : c.step sm cfg id action = some c') (hreached : Reached (c.members p) j) :
    Reached (c'.members p) j := by
  obtain ⟨hid, m, outbox, hm, rfl⟩ := Cluster.step_cases hmoved
  by_cases hpid : p = id
  · subst hpid
    simp only [Function.update_self]
    rcases memberStep_cases hm with ⟨hup, hm⟩ | ⟨hdown, -, _, _, _, rfl, rfl⟩
    · obtain ⟨mem, dur, hprocess⟩ := h.sim.process hid hup
      exact hreached.act hup hprocess.node.represents.logInv hm
    · exact hreached.restart hdown (h.loads.members p hid) hkeeping.2.2
  · simp only [Function.update_of_ne hpid]
    exact hreached

end CquptRaft
