import CquptRaft.Node.Replicas

/-!
# `OnAppendEntries` against the leader's log

The request carries a window of the leader's log. Behind the check of the previous record the
loop leaves the log as it was, when it has all entries of the window, or makes it the leader's
log up to the end of the window. The commit index then follows the leader's, bounded by the
follower's own last record and not by the end of the window: the step `Overreaches` when that
difference matters.
-/

namespace CquptRaft

open Replication RaftNode

variable {H : History NodeId LogRecord} {members : Finset NodeId} {q : NodeId}

/-! ## The loop over the entries -/

theorem Represents.truncate_append {n : RaftNode} {mem : Replica LogRecord}
    (h : Represents n mem) {i : Nat} (hsnap : mem.snap ≤ i) (hi : i ≤ mem.log.length)
    {entry : LogRecord} (hentry : entry.index = i + 1) :
    Represents { n with log := n.log.take (i + 1 - mem.snap) ++ [entry] }
      { mem with log := mem.log.take i ++ [entry] } := by
  have hlen : (mem.log.take i).length = i := by simp [hi]
  have hterm : termAt LogRecord.term (mem.log.take i ++ [entry]) mem.snap =
      termAt LogRecord.term mem.log mem.snap := by
    have hle := List.prefix_append (mem.log.take i) [entry]
    rw [← termAt_of_le LogRecord.term hle (hsnap.trans hlen.ge), termAt_take LogRecord.term hsnap]
  refine ⟨h.term, h.commit, h.snapIndex, by rw [hterm]; exact h.snapTerm, ⟨?_, ?_, ?_⟩⟩
  · have hhead : headRecord { mem with log := mem.log.take i ++ [entry] } = headRecord mem := by
      simp only [headRecord, hterm]
    rw [hhead, h.stores.eq, show i + 1 - mem.snap = (i - mem.snap) + 1 by omega,
      List.take_succ_cons,
      List.drop_append_of_le_length (hlen.symm ▸ hsnap), List.cons_append, List.drop_take]
  · simp only [List.length_append, hlen, List.length_singleton]
    omega
  · exact (h.stores.indexed.of_le (take_le _ i)).append (by rw [hlen, hentry])

/-- What the loop has achieved at index `k`: the log has the window, or is the leader's log up
to there. -/
def AppendDone (L : List LogRecord) (p o : AppendProgress) (mem : Replica LogRecord) (k : Nat) :
    Prop :=
  o.node = p.node ∧ o.logChanged = p.logChanged ∧ k ≤ mem.log.length ∧
      mem.log.take k = L.take k ∨
  o.logChanged = true ∧ Represents o.node { mem with log := L.take k } ∧
    ∀ P, P <+: mem.log → P <+: L → P <+: L.take k

theorem appendLoop_spec {L : List LogRecord} {M : Nat → List LogRecord} (hL : Indexed L)
    (hLgood : Good LogRecord.term M L) (entries : List LogRecord) (p : AppendProgress)
    (mem : Replica LogRecord) (hrep : Represents p.node mem)
    (hgood : Good LogRecord.term M mem.log) (hsnap : mem.snap ≤ p.matchIndex)
    (hlen : p.matchIndex ≤ mem.log.length)
    (htake : mem.log.take p.matchIndex = L.take p.matchIndex)
    (hentries : entries <+: L.drop p.matchIndex) :
    ∃ o, RaftNode.appendLoop p entries = .inr o ∧
      o.matchIndex = p.matchIndex + entries.length ∧ AppendDone L p o mem o.matchIndex := by
  induction entries generalizing p mem with
  | nil => exact ⟨p, rfl, rfl, .inl ⟨rfl, rfl, hlen, htake⟩⟩
  | cons entry rest ih =>
    obtain ⟨node, changed, pos⟩ := p
    simp only at hrep hsnap hlen htake hentries
    -- the entry is the next one of the leader's log
    have hpos : pos < L.length := by
      have := hentries.length_le
      simp only [List.length_cons, List.length_drop] at this
      omega
    have hdrop : L.drop pos = L[pos] :: L.drop (pos + 1) := List.drop_eq_getElem_cons hpos
    rw [hdrop, List.cons_prefix_cons] at hentries
    obtain ⟨rfl, hrest⟩ := hentries
    have hindex : (L[pos]).index = pos + 1 := hL pos hpos
    have hstep : L.take (pos + 1) = L.take pos ++ [L[pos]] := List.take_succ_eq_append_getElem hpos
    have hno₁ : ¬ (L[pos]).index ≤ node.lastSnapshotIndex := by
      rw [hindex, hrep.snapIndex]
      omega
    have hno₂ : ¬ node.lastLogIndexLocked + 1 < (L[pos]).index := by
      rw [hindex, hrep.lastLogIndexLocked]
      omega
    -- what is common to both logs ends here, when the logs part here
    have hpart : (pos < mem.log.length → mem.log[pos]? ≠ some L[pos]) →
        ∀ P, P <+: mem.log → P <+: L → P <+: L.take (pos + 1) := by
      intro hdiff P hP hP'
      refine List.prefix_of_prefix_length_le hP' (take_le L _) ?_
      rw [List.length_take]
      by_contra hlong
      have hPlen : pos < P.length := by omega
      have hlt := hPlen.trans_le hP.length_le
      refine hdiff hlt ?_
      rw [List.getElem?_eq_getElem hlt, ← hP.getElem hPlen, hP'.getElem hPlen]
    -- the loop goes on from the leader's log up to this entry
    have hreplaced : ∀ (node' : RaftNode), Represents node'
          { mem with log := L.take (pos + 1) } →
        (pos < mem.log.length → mem.log[pos]? ≠ some L[pos]) →
        ∃ o, RaftNode.appendLoop ⟨node', true, pos + 1⟩ rest = .inr o ∧
          o.matchIndex = pos + (L[pos] :: rest).length ∧
          AppendDone L ⟨node, changed, pos⟩ o mem o.matchIndex := by
      intro node' hrep' hdiff
      have hlen' : (L.take (pos + 1)).length = pos + 1 := by
        rw [List.length_take]
        omega
      obtain ⟨o, ho, hmatch, hdone⟩ := ih ⟨node', true, pos + 1⟩
        { mem with log := L.take (pos + 1) } hrep' (hLgood.take _) (by simp only; omega)
        (by simp only; omega) (by simp only [List.take_take, min_self]) hrest
      refine ⟨o, ho, by simp only [List.length_cons] at hmatch ⊢; omega, .inr ?_⟩
      rcases hdone with ⟨hnode, hchanged, hk, htake'⟩ | ⟨hchanged, hrepo, hcommon⟩
      · have hkeq : o.matchIndex = pos + 1 := by
          simp only at hk hmatch
          omega
        refine ⟨hchanged, ?_, hkeq ▸ hpart hdiff⟩
        rw [hnode, hkeq]
        exact hrep'
      · exact ⟨hchanged, hrepo, fun P hP hP' => hcommon P (hpart hdiff P hP hP') hP'⟩
    rw [RaftNode.appendLoop, if_neg hno₁, if_neg hno₂]
    by_cases hhas : node.hasLogAtIndexLocked (L[pos]).index = true
    · rw [if_pos hhas]
      have hoffset : node.logOffsetLocked (L[pos]).index = pos + 1 - mem.snap := by
        rw [RaftNode.logOffsetLocked, hindex, hrep.firstLogIndexLocked]
      have hlt : pos < mem.log.length := by
        have := ((hrep.hasLogAtIndexLocked _).mp hhas).2
        omega
      have hget : node.log[pos + 1 - mem.snap]? = some mem.log[pos] := by
        rw [hrep.stores.getElem?_sub (by omega : mem.snap < pos + 1), Nat.add_sub_cancel,
          List.getElem?_eq_getElem hlt]
      simp only [hoffset, hget, Option.map_some, Option.some.injEq]
      by_cases hsame : (mem.log[pos]).term = (L[pos]).term
      · rw [if_pos hsame]
        have htake' : mem.log.take (pos + 1) = L.take (pos + 1) := by
          refine hgood.take_eq_of_termAt_eq hLgood hlt hpos ?_
          simp [termAt, List.getElem?_eq_getElem hlt, List.getElem?_eq_getElem hpos, hsame]
        obtain ⟨o, ho, hmatch, hdone⟩ := ih ⟨node, changed, pos + 1⟩ mem hrep hgood
          (by simp only; omega) hlt htake' hrest
        rw [hindex]
        exact ⟨o, ho, by simp only [List.length_cons] at hmatch ⊢; omega, hdone⟩
      · rw [if_neg hsame, hindex]
        refine hreplaced _ ?_ fun _ heq => hsame ?_
        · have := hrep.truncate_append hsnap hlen hindex
          rwa [htake, ← hstep] at this
        · rw [List.getElem?_eq_getElem hlt, Option.some.injEq] at heq
          rw [heq]
    · rw [if_neg hhas, hindex]
      have hend : pos = mem.log.length := by
        have : ¬ (mem.snap ≤ pos + 1 ∧ pos + 1 ≤ mem.log.length) := by
          rw [← hindex]
          exact fun h => hhas ((hrep.hasLogAtIndexLocked _).mpr h)
        omega
      refine hreplaced _ ?_ fun hlt => by omega
      have := hrep.truncate_append hsnap hlen hindex
      rw [htake, ← hstep] at this
      have hall : node.log.take (pos + 1 - mem.snap) = node.log := by
        refine List.take_of_length_le ?_
        rw [hrep.stores.length_eq]
        omega
      rwa [hall] at this

/-! ## The whole handler -/

/-- What a leader's request carries: a window of its log and its commit index. -/
structure Window (H : History NodeId LogRecord) (members : Finset NodeId)
    (request : AppendEntriesRequest) : Prop where
  elected : H.Elected request.term
  prev_le : request.prevLogIndex ≤ (H.leaderLog request.term).length
  prevTerm : request.prevLogTerm =
    termAt LogRecord.term (H.leaderLog request.term) request.prevLogIndex
  entries : request.entries <+: (H.leaderLog request.term).drop request.prevLogIndex
  commit_le : request.leaderCommit ≤ (H.leaderLog request.term).length
  chosen : H.ChosenBy members request.term (H.written request.term request.leaderCommit)

/-- The index of the last record the request vouches for. -/
def AppendEntriesRequest.verified (request : AppendEntriesRequest) : Nat :=
  request.prevLogIndex + request.entries.length

theorem Window.verified_le {request : AppendEntriesRequest} (h : Window H members request) :
    request.verified ≤ (H.leaderLog request.term).length := by
  have hlen := h.entries.length_le
  rw [List.length_drop] at hlen
  have := h.prev_le
  unfold AppendEntriesRequest.verified
  omega

/-- The request is accepted, the node's log has all of its entries and a tail of its own
behind them, and the leader's commit index reaches into that tail: the node commits records
that the request does not vouch for. -/
def RaftNode.Overreaches (n : RaftNode) (request : AppendEntriesRequest) : Prop :=
  n.currentTerm ≤ request.term ∧
  n.lastSnapshotIndex ≤ request.prevLogIndex ∧
  n.hasLogAtIndexLocked request.prevLogIndex = true ∧
  n.termAtIndexLocked request.prevLogIndex = request.prevLogTerm ∧
  (∀ entry ∈ request.entries, n.hasLogAtIndexLocked entry.index = true ∧
    n.termAtIndexLocked entry.index = entry.term) ∧
  request.verified < min request.leaderCommit n.lastLogIndexLocked ∧
  n.commitIndex < min request.leaderCommit n.lastLogIndexLocked

instance (n : RaftNode) (request : AppendEntriesRequest) : Decidable (n.Overreaches request) :=
  inferInstanceAs (Decidable (_ ∧ _))

/-- A log that agrees with the leader's up to the end of the window has all its entries. -/
theorem Window.has_entries {request : AppendEntriesRequest} (h : Window H members request)
    (hindexed : Indexed (H.leaderLog request.term)) {n : RaftNode} {mem : Replica LogRecord}
    (hrep : Represents n mem) (hsnap : mem.snap ≤ request.prevLogIndex)
    (hlen : request.verified ≤ mem.log.length)
    (htake : mem.log.take request.verified = H.written request.term request.verified) :
    ∀ entry ∈ request.entries, n.hasLogAtIndexLocked entry.index = true ∧
      n.termAtIndexLocked entry.index = entry.term := by
  intro entry hentry
  obtain ⟨j, hj, rfl⟩ := List.mem_iff_getElem.mp hentry
  have hpos : request.prevLogIndex + j < (H.leaderLog request.term).length := by
    have := h.verified_le
    unfold AppendEntriesRequest.verified at this
    omega
  have heq : request.entries[j] = (H.leaderLog request.term)[request.prevLogIndex + j] := by
    rw [h.entries.getElem hj, List.getElem_drop]
  have hindex : (request.entries[j]).index = request.prevLogIndex + j + 1 := by
    rw [heq, hindexed]
  have hle : request.prevLogIndex + j + 1 ≤ request.verified := by
    unfold AppendEntriesRequest.verified
    omega
  have hhas : mem.snap ≤ request.prevLogIndex + j + 1 ∧
      request.prevLogIndex + j + 1 ≤ mem.log.length := by omega
  rw [hindex, hrep.termAtIndexLocked hhas.1 hhas.2]
  refine ⟨(hrep.hasLogAtIndexLocked _).mpr hhas, ?_⟩
  rw [← termAt_take LogRecord.term hle, htake, History.written, termAt_take LogRecord.term hle, heq]
  simp [termAt, List.getElem?_eq_getElem hpos]

/-- What the handler leaves behind. -/
structure Appended (H : History NodeId LogRecord) (members : Finset NodeId) (q : NodeId)
    (mem : Replica LogRecord) (request : AppendEntriesRequest) (n' : RaftNode)
    (response : AppendEntriesResponse) (mem' dur' : Replica LogRecord) : Prop where
  inv : NodeInv H members q n' mem' dur'
  evolves : Evolves mem mem'
  success : response.success = true → mem'.term = request.term ∧
    response.matchIndex ≤ (H.leaderLog request.term).length ∧
    H.written request.term response.matchIndex <+: mem'.log
  raised : mem.commit < mem'.commit → mem'.term = request.term ∧
    mem'.log.take mem'.commit = H.written request.term mem'.commit ∧
    mem'.commit ≤ request.leaderCommit
  keeps : ∀ P, P <+: mem.log → P <+: H.leaderLog request.term → P <+: mem'.log

theorem NodeInv.appendEntriesBody {n : RaftNode} {mem dur : Replica LogRecord}
    {request : AppendEntriesRequest} (h : NodeInv H members q n mem dur)
    (hH : H.Valid members LogRecord.term) (hindexed : ∀ T, Indexed (H.leaderLog T))
    (hw : Window H members request) (hok : ¬ n.Overreaches request)
    (hterm : mem.term = request.term) (hsnap : mem.snap ≤ request.prevLogIndex)
    (hprev : request.prevLogIndex ≤ mem.log.length)
    (hprevTerm : termAt LogRecord.term mem.log request.prevLogIndex = request.prevLogTerm)
    (logSaved commitSaved : Bool) :
    ∃ mem' dur', Appended H members q mem request
      (n.appendEntriesBody request logSaved commitSaved).1
      (n.appendEntriesBody request logSaved commitSaved).2.1 mem' dur' := by
  have hLgood := hH.leaderLog_good request.term
  have htake : mem.log.take request.prevLogIndex =
      (H.leaderLog request.term).take request.prevLogIndex :=
    h.memSound.good.take_eq_of_termAt_eq hLgood hprev hw.prev_le (hprevTerm.trans hw.prevTerm)
  obtain ⟨o, ho, hmatch, hdone⟩ := appendLoop_spec (hindexed _) hLgood request.entries
    ⟨n, false, request.prevLogIndex⟩ mem h.represents h.memSound.good hsnap hprev htake hw.entries
  have hframe := appendLoop_frame request.entries ⟨n, false, request.prevLogIndex⟩
  simp only [ho] at hframe
  have hk : o.matchIndex = request.verified := hmatch
  have hkL : o.matchIndex ≤ (H.leaderLog request.term).length := hk ▸ hw.verified_le
  unfold RaftNode.appendEntriesBody
  simp only [ho]
  -- the node behind the loop and its save; its log has the window
  have hloop : o.logChanged = true ∧ logSaved = false ∨ ∃ m mem₁ dur₁,
      (if o.logChanged = true then o.node.persistStateLocked true else o.node) = m ∧
      ¬ (o.logChanged && !logSaved) = true ∧ NodeInv H members q m mem₁ dur₁ ∧
      Evolves mem mem₁ ∧ mem₁.term = request.term ∧ mem₁.commit = mem.commit ∧
      H.written request.term o.matchIndex <+: mem₁.log ∧
      (∀ P, P <+: mem.log → P <+: H.leaderLog request.term → P <+: mem₁.log) ∧
      (mem₁.commit < min request.leaderCommit mem₁.log.length →
        min request.leaderCommit mem₁.log.length ≤ o.matchIndex) := by
    rcases hdone with ⟨hnode, hchanged, hklen, htake'⟩ | ⟨hchanged, hrep, hcommon⟩
    · simp only at hchanged hnode
      refine .inr ⟨n, mem, dur, by simp [hchanged, hnode], by simp [hchanged], h, .refl mem, hterm,
        rfl, ?_, fun _ hP _ => hP, fun hlt => ?_⟩
      · rw [History.written, ← htake']
        exact take_le _ _
      · -- otherwise the tail of the node would be committed unseen
        by_contra hover
        refine hok ⟨h.represents.term ▸ hterm.le, h.represents.snapIndex ▸ hsnap,
          (h.represents.hasLogAtIndexLocked _).mpr ⟨hsnap, hprev⟩, ?_,
          hw.has_entries (hindexed _) h.represents hsnap (hk ▸ hklen) (hk ▸ htake'), ?_, ?_⟩
        · rw [h.represents.termAtIndexLocked hsnap hprev, hprevTerm]
        · rw [h.represents.lastLogIndexLocked, ← hk]
          omega
        · rw [h.represents.lastLogIndexLocked, h.represents.commit]
          exact hlt
    · cases logSaved with
      | false => exact .inl ⟨hchanged, rfl⟩
      | true =>
        have hsnapL : mem.log.take mem.snap <+: H.leaderLog mem.term := by
          rw [hterm]
          refine (take_le_take hsnap).trans ?_
          rw [htake]
          exact take_le _ _
        obtain ⟨hsound, htakes⟩ := h.memSound.accept hH (hterm ▸ hw.elected)
          (k := o.matchIndex) (hterm ▸ hcommon) hsnapL
        have hlog : H.written mem.term o.matchIndex = H.written request.term o.matchIndex := by
          rw [hterm]
        rw [hlog] at hsound htakes
        refine .inr ⟨o.node.persistStateLocked true,
          { mem with log := H.written request.term o.matchIndex },
          { mem with log := H.written request.term o.matchIndex }, by simp [hchanged],
          by simp, ?_, ⟨le_rfl, le_rfl, htakes⟩, hterm, rfl, ?_, hcommon, fun _ => ?_⟩
        · have happlied : o.node.lastApplied ≤ o.node.commitIndex := by
            rw [hframe]
            exact h.applied
          exact ⟨hrep.congr (by simp) (by simp) (by simp) (by simp) (by simp),
            hrep.persists happlied, hsound, hsound, .save hsound, by simpa using happlied⟩
        · exact List.prefix_refl _
        · simp only [History.written, List.length_take]
          omega
  rcases hloop with ⟨hchanged, hsaved⟩ | ⟨m, mem₁, dur₁, hm, hgo, hinv, hev, hterm₁, hcommit₁,
    hwritten, hcommon, hbound⟩
  · simp only [hchanged, hsaved, Bool.not_false, Bool.and_self, if_true]
    exact ⟨mem, dur, h, .refl mem, by simp [RaftNode.appendEntriesResponse], by simp,
      fun _ hP _ => hP⟩
  · simp only [if_neg hgo, hm]
    have hsuccess : mem₁.term = request.term ∧
        o.matchIndex ≤ (H.leaderLog request.term).length ∧
        H.written request.term o.matchIndex <+: mem₁.log := ⟨hterm₁, hkL, hwritten⟩
    split
    · rename_i hlt
      rw [hinv.represents.commit, hinv.represents.lastLogIndexLocked] at hlt
      have hle := hbound hlt
      have hlenK : (H.written request.term o.matchIndex).length = o.matchIndex := by
        simp [History.written, hkL]
      have htakeK : mem₁.log.take (min request.leaderCommit mem₁.log.length) =
          H.written request.term (min request.leaderCommit mem₁.log.length) := by
        rw [← take_eq_of_le hwritten (hle.trans hlenK.ge), History.written, History.written,
          List.take_take, min_eq_left hle]
      cases commitSaved with
      | true =>
        have hcommit := hinv.commitTo (k := min request.leaderCommit mem₁.log.length) hlt.le
          (min_le_right _ _) (by
            rw [hterm₁, htakeK]
            exact hw.chosen.of_le (take_le_take (min_le_left _ _)))
        rw [hinv.represents.lastLogIndexLocked]
        refine ⟨_, _, hcommit.persist true, hev.trans (.commitTo hlt.le), fun _ => hsuccess,
          fun _ => ⟨hterm₁, htakeK, min_le_left _ _⟩, hcommon⟩
      | false => exact ⟨mem₁, dur₁, hinv, hev, by simp, fun hc => by omega, hcommon⟩
    · exact ⟨mem₁, dur₁, hinv, hev, fun _ => hsuccess, fun hc => by omega, hcommon⟩

theorem RaftNode.Overreaches.congr {n n' : RaftNode} {request : AppendEntriesRequest}
    (hterm : n.currentTerm ≤ request.term)
    (hindex : n'.lastSnapshotIndex = n.lastSnapshotIndex)
    (hsnap : n'.lastSnapshotTerm = n.lastSnapshotTerm) (hlog : n'.log = n.log)
    (hcommit : n'.commitIndex = n.commitIndex) (h : n'.Overreaches request) :
    n.Overreaches request := by
  simp only [RaftNode.Overreaches, RaftNode.hasLogAtIndexLocked, RaftNode.termAtIndexLocked,
    RaftNode.logAtIndexLocked, RaftNode.logOffsetLocked, RaftNode.firstLogIndexLocked,
    RaftNode.lastLogIndexLocked, hindex, hsnap, hlog, hcommit] at h ⊢
  exact ⟨hterm, h.2⟩

theorem NodeInv.onAppendEntries {n : RaftNode} {mem dur : Replica LogRecord}
    {request : AppendEntriesRequest} (h : NodeInv H members q n mem dur)
    (hH : H.Valid members LogRecord.term) (hindexed : ∀ T, Indexed (H.leaderLog T))
    (hw : Window H members request) (hok : ¬ n.Overreaches request)
    (termSaved logSaved commitSaved : Bool) :
    ∃ mem' dur', Appended H members q mem request
      (n.onAppendEntries request termSaved logSaved commitSaved).1
      (n.onAppendEntries request termSaved logSaved commitSaved).2.1 mem' dur' := by
  unfold RaftNode.onAppendEntries
  split
  · exact ⟨mem, dur, h, .refl mem, by simp [RaftNode.appendEntriesResponse], by simp,
      fun _ hP _ => hP⟩
  · rename_i hge
    obtain ⟨dur₁, h₁⟩ := h.acceptLeaderLocked hge request.leaderId termSaved
    have hframe := n.acceptLeaderLocked_frame request.term request.leaderId termSaved
    have hterm : mem.term ≤ request.term := by
      rw [← h.represents.term]
      omega
    have hev : Evolves mem { mem with term := request.term } := .raise hterm
    generalize n.acceptLeaderLocked request.term request.leaderId termSaved = res at h₁ hframe
    obtain ⟨m, ok⟩ := res
    simp only at h₁ hframe ⊢
    split
    · exact ⟨_, _, h₁, hev, by simp [RaftNode.appendEntriesResponse], by simp, fun _ hP _ => hP⟩
    · split
      · refine ⟨_, _, h₁, hev, fun hs => ?_, by simp, fun _ hP _ => hP⟩
        exfalso
        simp only [RaftNode.setAppendEntriesConflictHintLocked] at hs
        split at hs
        · simp [RaftNode.appendEntriesResponse] at hs
        · split at hs <;> simp [RaftNode.appendEntriesResponse] at hs
      · rename_i hcheck
        simp only [not_or, Bool.not_eq_true', Bool.not_eq_false, not_lt, ne_eq, not_not] at hcheck
        obtain ⟨hsnap, hhas, hprevTerm⟩ := hcheck
        rw [h₁.represents.snapIndex] at hsnap
        have hhas' := (h₁.represents.hasLogAtIndexLocked _).mp hhas
        rw [h₁.represents.termAtIndexLocked hhas'.1 hhas'.2] at hprevTerm
        have hok' : ¬ m.Overreaches request := fun ho =>
          hok (ho.congr (by omega) hframe.1 hframe.2.1 hframe.2.2.1 hframe.2.2.2)
        obtain ⟨mem', dur', happ⟩ := h₁.appendEntriesBody hH hindexed hw hok' rfl hsnap hhas'.2
          hprevTerm logSaved commitSaved
        exact ⟨mem', dur', happ.inv, hev.trans happ.evolves, happ.success, happ.raised, happ.keeps⟩

/-! ## What the handler saves -/

/-- A loop that reports no change leaves the node alone. -/
theorem appendLoop_unchanged {entries : List LogRecord} {p o : AppendProgress}
    (h : RaftNode.appendLoop p entries = .inr o) :
    o.logChanged = true ∨ p.logChanged = false ∧ o.node = p.node := by
  fun_induction RaftNode.appendLoop p entries with
  | case1 p =>
    cases h
    cases hchanged : o.logChanged
    · exact .inr ⟨rfl, rfl⟩
    · exact .inl rfl
  | case2 p entry rest hold ih => exact ih h
  | case3 p entry rest hold gap => cases h
  | case4 p entry rest hold gap has offset same ih => exact ih h
  | case5 p entry rest hold gap has offset same ih => exact .inl ((ih h).resolve_right (by simp))
  | case6 p entry rest hold gap has ih => exact .inl ((ih h).resolve_right (by simp))

/-- A node that has not saved its log behind the loop has the log from before. -/
theorem RaftNode.appendEntriesBody_stored {n : RaftNode} {request : AppendEntriesRequest}
    {o : AppendProgress}
    (h : appendLoop ⟨n, false, request.prevLogIndex⟩ request.entries = .inr o)
    (logSaved commitSaved : Bool) :
    (n.appendEntriesBody request logSaved commitSaved).1.log = n.log ∨
      ∃ state, (n.appendEntriesBody request logSaved commitSaved).1.storage = some state ∧
        state.log = (n.appendEntriesBody request logSaved commitSaved).1.log := by
  have hunchanged := appendLoop_unchanged h
  unfold appendEntriesBody
  simp only [h]
  grind [persistStateLocked, persistentState]

theorem NodeInv.onAppendEntries_stored {n : RaftNode} {mem dur : Replica LogRecord}
    {request : AppendEntriesRequest} (h : NodeInv H members q n mem dur)
    (hH : H.Valid members LogRecord.term) (hindexed : ∀ T, Indexed (H.leaderLog T))
    (hw : Window H members request) (termSaved logSaved commitSaved : Bool) :
    (n.onAppendEntries request termSaved logSaved commitSaved).1.log = n.log ∨
      ∃ state, (n.onAppendEntries request termSaved logSaved commitSaved).1.storage = some state ∧
        state.log = (n.onAppendEntries request termSaved logSaved commitSaved).1.log := by
  unfold RaftNode.onAppendEntries
  split
  · exact .inl rfl
  · rename_i hge
    obtain ⟨dur₁, h₁⟩ := h.acceptLeaderLocked hge request.leaderId termSaved
    have hframe := (n.acceptLeaderLocked_frame request.term request.leaderId termSaved).2.2.1
    generalize n.acceptLeaderLocked request.term request.leaderId termSaved = res at h₁ hframe
    obtain ⟨m, ok⟩ := res
    simp only at h₁ hframe ⊢
    split
    · exact .inl hframe
    · split
      · exact .inl hframe
      · rename_i hcheck
        simp only [not_or, Bool.not_eq_true', Bool.not_eq_false, not_lt, ne_eq, not_not] at hcheck
        obtain ⟨hsnap, hhas, hprevTerm⟩ := hcheck
        rw [h₁.represents.snapIndex] at hsnap
        have hhas' := (h₁.represents.hasLogAtIndexLocked _).mp hhas
        rw [h₁.represents.termAtIndexLocked hhas'.1 hhas'.2] at hprevTerm
        have hLgood := hH.leaderLog_good request.term
        have htake := h₁.memSound.good.take_eq_of_termAt_eq hLgood hhas'.2 hw.prev_le
          (hprevTerm.trans hw.prevTerm)
        obtain ⟨o, ho, -, -⟩ := appendLoop_spec (hindexed _) hLgood request.entries
          ⟨m, false, request.prevLogIndex⟩ _ h₁.represents h₁.memSound.good hsnap hhas'.2 htake
          hw.entries
        rw [← hframe]
        exact RaftNode.appendEntriesBody_stored ho logSaved commitSaved

end CquptRaft
