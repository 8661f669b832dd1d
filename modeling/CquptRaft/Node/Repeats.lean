import CquptRaft.Node.AppendEntries
import CquptRaft.Node.Calls
import Mathlib.Tactic.IntervalCases

/-!
# Repeated and reordered `AppendEntries`

The leader of a term only appends to its log, and every request it sends is a window of that log.
A follower handles such requests in any order and any number of times. No request shortens the
prefix on which the follower agrees with the leader, whatever the request carries: the loop over
the entries truncates only where the logs part, and there the agreement has ended.
-/

namespace CquptRaft

open Replication

/-- The request is a window of `L`: the record it starts behind, and the entries that follow. -/
structure AppendEntriesRequest.WindowOf (request : AppendEntriesRequest) (L : List LogRecord) :
    Prop where
  prev_le : request.prevLogIndex ≤ L.length
  prevTerm : request.prevLogTerm = termAt LogRecord.term L request.prevLogIndex
  entries : request.entries <+: L.drop request.prevLogIndex

theorem AppendEntriesRequest.WindowOf.mono {request : AppendEntriesRequest} {L L' : List LogRecord}
    (h : request.WindowOf L) (hle : L <+: L') : request.WindowOf L' where
  prev_le := h.prev_le.trans hle.length_le
  prevTerm := by rw [h.prevTerm, termAt_of_le LogRecord.term hle h.prev_le]
  entries := by
    obtain ⟨rest, rfl⟩ := hle
    rw [List.drop_append_of_le_length h.prev_le]
    exact h.entries.trans (List.prefix_append _ _)

namespace RaftNode

/-- Up to index `k` the node holds the records of `L`, apart from those it has compacted. -/
def AgreesWith (n : RaftNode) (L : List LogRecord) (k : Nat) : Prop :=
  k ≤ L.length ∧ ∀ i, n.lastSnapshotIndex < i → i ≤ k → n.logAtIndexLocked i = L[i - 1]?

/-- Log matching with `L`: where the terms agree, the logs agree up to there. -/
def LogMatches (n : RaftNode) (L : List LogRecord) : Prop :=
  ∀ i r r', 0 < i → n.logAtIndexLocked i = some r → L[i - 1]? = some r' → r.term = r'.term →
    n.AgreesWith L i

namespace AgreesWith

variable {n n' : RaftNode} {L L' : List LogRecord} {k : Nat}

theorem of_le (h : n.AgreesWith L k) {j : Nat} (hj : j ≤ k) : n.AgreesWith L j :=
  ⟨hj.trans h.1, fun i hsnap hi => h.2 i hsnap (hi.trans hj)⟩

theorem mono (h : n.AgreesWith L k) (hle : L <+: L') : n.AgreesWith L' k := by
  refine ⟨h.1.trans hle.length_le, fun i hsnap hi => ?_⟩
  have hlt : i - 1 < L.length := by
    have := h.1
    omega
  rw [h.2 i hsnap hi, List.prefix_iff_getElem?.mp hle _ hlt, List.getElem?_eq_getElem hlt]

theorem restrict (h : n.AgreesWith L' k) (hle : L <+: L') (hk : k ≤ L.length) :
    n.AgreesWith L k := by
  refine ⟨hk, fun i hsnap hi => ?_⟩
  have hlt : i - 1 < L.length := by omega
  rw [h.2 i hsnap hi, List.prefix_iff_getElem?.mp hle _ hlt, List.getElem?_eq_getElem hlt]

theorem congr (h : n.AgreesWith L k) (hlog : n'.log = n.log)
    (hsnap : n'.lastSnapshotIndex = n.lastSnapshotIndex) : n'.AgreesWith L k := by
  simp only [AgreesWith, logAtIndexLocked, hasLogAtIndexLocked, logOffsetLocked,
    firstLogIndexLocked, hlog, hsnap] at h ⊢
  exact h

theorem succ (h : n.AgreesWith L k) (hk : k < L.length)
    (hget : n.logAtIndexLocked (k + 1) = some L[k]) : n.AgreesWith L (k + 1) := by
  refine ⟨hk, fun i hsnap hi => ?_⟩
  rcases Nat.lt_or_eq_of_le hi with hlt | rfl
  · exact h.2 i hsnap (by omega)
  · rw [hget, Nat.add_sub_cancel, List.getElem?_eq_getElem hk]

end AgreesWith

/-! ## The loop over the entries -/

namespace LogInv

variable {n : RaftNode}

theorem logAtIndexLocked (h : LogInv n) (i : Nat) :
    n.logAtIndexLocked i =
      if n.lastSnapshotIndex ≤ i then n.log[i - n.lastSnapshotIndex]? else none := by
  rw [RaftNode.logAtIndexLocked, logOffsetLocked, h.firstLogIndexLocked]
  by_cases hhas : n.hasLogAtIndexLocked i = true
  · rw [if_pos hhas, if_pos ((h.hasLogAtIndexLocked i).mp hhas).1]
  · rw [if_neg hhas]
    rw [h.hasLogAtIndexLocked] at hhas
    split
    · exact (List.getElem?_eq_none (by omega)).symm
    · rfl

/-- Behind a cut the log holds the new record, and nothing follows it. -/
theorem logAtIndexLocked_truncate_append (h : LogInv n) {offset : Nat} (hpos : 0 < offset)
    (hle : offset ≤ n.log.length) {entry : LogRecord}
    (hentry : entry.index = n.lastSnapshotIndex + offset) (i : Nat) :
    RaftNode.logAtIndexLocked { n with log := n.log.take offset ++ [entry] } i =
      if i < entry.index then n.logAtIndexLocked i
      else if i = entry.index then some entry else none := by
  have hlen : (n.log.take offset).length = offset := by simp [hle]
  rw [(h.truncate_append hpos hle hentry).logAtIndexLocked, h.logAtIndexLocked]
  simp only
  rcases lt_trichotomy i entry.index with hlt | rfl | hgt
  · rw [if_pos hlt]
    split
    · rw [List.getElem?_append_left (by omega), List.getElem?_take_of_lt (by omega)]
    · rfl
  · rw [if_neg (lt_irrefl _), if_pos rfl, if_pos (by omega), hentry, Nat.add_sub_cancel_left,
      List.getElem?_append_right hlen.le, hlen, Nat.sub_self]
    rfl
  · rw [if_pos (show n.lastSnapshotIndex ≤ i by omega), if_neg (show ¬ i < entry.index by omega),
      if_neg (show ¬ i = entry.index by omega)]
    refine List.getElem?_eq_none ?_
    simp only [List.length_append, hlen, List.length_singleton]
    omega

/-- A node holds the records on which it agrees with another log. -/
theorem le_last_of_agreesWith (h : LogInv n) {L : List LogRecord} {k : Nat}
    (hagrees : n.AgreesWith L k) (hsnap : n.lastSnapshotIndex < k) : k ≤ n.lastLogIndexLocked := by
  have hget := hagrees.2 k hsnap le_rfl
  have hlt : k - 1 < L.length := by
    have := hagrees.1
    omega
  rw [h.logAtIndexLocked, if_pos hsnap.le, List.getElem?_eq_getElem hlt] at hget
  have hlen := (List.getElem?_eq_some_iff.mp hget).1
  have hlast := h.lastLogIndexLocked
  omega

end LogInv

/-- What the loop has achieved: the node was left alone, or it now ends with the window. -/
structure LoopDone (L : List LogRecord) (p o : AppendProgress) : Prop where
  inv : LogInv o.node
  head : o.node.log.head? = p.node.log.head?
  agrees : o.node.AgreesWith L o.matchIndex
  cases : o.node = p.node ∧ o.logChanged = p.logChanged ∨
    o.logChanged = true ∧ o.node.lastLogIndexLocked = o.matchIndex ∧
      ¬ p.node.AgreesWith L o.matchIndex

theorem appendLoop_done {L : List LogRecord} (hL : Indexed L)
    (entries : List LogRecord) (p : AppendProgress) (hinv : LogInv p.node)
    (hmatches : p.node.LogMatches L) (hagrees : p.node.AgreesWith L p.matchIndex)
    (hsnap : p.node.lastSnapshotIndex ≤ p.matchIndex)
    (hlast : p.matchIndex ≤ p.node.lastLogIndexLocked)
    (hentries : entries <+: L.drop p.matchIndex) :
    ∃ o, appendLoop p entries = .inr o ∧ o.matchIndex = p.matchIndex + entries.length ∧
      LoopDone L p o := by
  induction entries generalizing p with
  | nil => exact ⟨p, rfl, rfl, hinv, rfl, hagrees, .inl ⟨rfl, rfl⟩⟩
  | cons entry rest ih =>
    obtain ⟨node, changed, pos⟩ := p
    simp only at hinv hmatches hagrees hsnap hlast hentries
    -- the entry is the next record of the leader's log
    have hpos : pos < L.length := by
      have := hentries.length_le
      simp only [List.length_cons, List.length_drop] at this
      omega
    rw [List.drop_eq_getElem_cons hpos, List.cons_prefix_cons] at hentries
    obtain ⟨rfl, hrest⟩ := hentries
    have hindex := hL pos hpos
    have hlen := hinv.lastLogIndexLocked
    have hcut : 0 < pos + 1 - node.lastSnapshotIndex ∧
        pos + 1 - node.lastSnapshotIndex ≤ node.log.length ∧
        (L[pos]).index = node.lastSnapshotIndex + (pos + 1 - node.lastSnapshotIndex) := by omega
    -- the logs part here: the loop goes on from the leader's log up to this entry
    have hparts : node.logAtIndexLocked (pos + 1) ≠ some L[pos] →
        ∃ o, appendLoop ⟨{ node with
            log := node.log.take (pos + 1 - node.lastSnapshotIndex) ++ [L[pos]] }, true, pos + 1⟩
            rest = .inr o ∧
          o.matchIndex = pos + (L[pos] :: rest).length ∧ LoopDone L ⟨node, changed, pos⟩ o := by
      intro hdiff
      have hcutInv := hinv.truncate_append hcut.1 hcut.2.1 hcut.2.2
      have hget := hinv.logAtIndexLocked_truncate_append hcut.1 hcut.2.1 hcut.2.2
      have hcutLast := hcutInv.lastLogIndexLocked
      simp only [List.length_append, List.length_take, List.length_singleton] at hcutLast
      generalize hnode : { node with
        log := node.log.take (pos + 1 - node.lastSnapshotIndex) ++ [L[pos]] } = node' at *
      have hsame : node'.lastSnapshotIndex = node.lastSnapshotIndex := by rw [← hnode]
      have hhead : node'.log.head? = node.log.head? := by
        rw [← hnode]
        simp only [List.head?_append, List.head?_take, if_neg hcut.1.ne']
        rw [Option.or_of_isSome (by simpa using hinv.nonempty)]
      have hagrees' : node'.AgreesWith L (pos + 1) := by
        refine ⟨hpos, fun i hi hle => ?_⟩
        rw [hget, hindex]
        rcases Nat.lt_or_eq_of_le hle with hlt | rfl
        · rw [if_pos hlt]
          exact hagrees.2 i (hsame ▸ hi) (by omega)
        · rw [if_neg (lt_irrefl _), if_pos rfl, Nat.add_sub_cancel, List.getElem?_eq_getElem hpos]
      have hmatches' : node'.LogMatches L := by
        intro i r r' _ hr _ _
        refine hagrees'.of_le ?_
        by_contra hgt
        rw [hget, if_neg (by omega), if_neg (by omega)] at hr
        cases hr
      obtain ⟨o, ho, hmatch, hdone⟩ := ih ⟨node', true, pos + 1⟩ hcutInv hmatches' hagrees'
        (by simp only; omega) (by simp only; omega) hrest
      refine ⟨o, ho, by simp only [List.length_cons] at hmatch ⊢; omega, hdone.inv,
        hdone.head.trans hhead, hdone.agrees, .inr ?_⟩
      have hearlier : ¬ node.AgreesWith L o.matchIndex := by
        intro hall
        refine hdiff ?_
        simp only at hmatch
        rw [hall.2 (pos + 1) (by omega) (by omega), Nat.add_sub_cancel,
          List.getElem?_eq_getElem hpos]
      rcases hdone.cases with ⟨hsameNode, hchanged⟩ | ⟨hchanged, hend, -⟩
      · refine ⟨hchanged, ?_, hearlier⟩
        simp only at hsameNode hmatch
        have hreach := hdone.inv.le_last_of_agreesWith hdone.agrees (by rw [hsameNode]; omega)
        rw [hsameNode] at hreach ⊢
        omega
      · exact ⟨hchanged, hend, hearlier⟩
    rw [appendLoop, if_neg (by simp only; omega), if_neg (by simp only; omega)]
    by_cases hhas : node.hasLogAtIndexLocked (L[pos]).index = true
    · obtain ⟨record, hrecord, -⟩ := hinv.getElem?_logOffsetLocked hhas
      have hget : node.logAtIndexLocked (pos + 1) = some record := by
        rw [RaftNode.logAtIndexLocked, ← hindex, if_pos hhas, hrecord]
      have hoffset : node.logOffsetLocked (L[pos]).index = pos + 1 - node.lastSnapshotIndex := by
        rw [logOffsetLocked, hindex, hinv.firstLogIndexLocked]
      rw [if_pos hhas]
      simp only [hrecord, Option.map_some, Option.some.injEq]
      by_cases hsame : record.term = (L[pos]).term
      · rw [if_pos hsame, hindex]
        have hagrees' := hmatches (pos + 1) record L[pos] (Nat.succ_pos pos) hget
          (by rw [Nat.add_sub_cancel, List.getElem?_eq_getElem hpos]) hsame
        have hreach := hinv.le_last_of_agreesWith hagrees' (by omega)
        obtain ⟨o, ho, hmatch, hdone⟩ := ih ⟨node, changed, pos + 1⟩ hinv hmatches hagrees'
          (by simp only; omega) hreach hrest
        exact ⟨o, ho, by simp only [List.length_cons] at hmatch ⊢; omega, hdone.inv, hdone.head,
          hdone.agrees, hdone.cases⟩
      · rw [if_neg hsame, hindex, ← hindex, hoffset, hindex]
        refine hparts fun heq => hsame ?_
        rw [hget, Option.some.injEq] at heq
        rw [heq]
    · -- the log ends here
      rw [if_neg hhas, hindex]
      rw [hinv.hasLogAtIndexLocked, hindex] at hhas
      have hall : node.log.take (pos + 1 - node.lastSnapshotIndex) = node.log :=
        List.take_of_length_le (by omega)
      rw [hall] at hparts
      refine hparts fun heq => ?_
      rw [hinv.logAtIndexLocked, if_pos (by omega)] at heq
      have := (List.getElem?_eq_some_iff.mp heq).1
      omega

/-! ## One request -/

/-- The fields that a follower answers from. -/
structure SameView (n n' : RaftNode) : Prop where
  term : n'.currentTerm = n.currentTerm
  log : n'.log = n.log
  commit : n'.commitIndex = n.commitIndex
  snapIndex : n'.lastSnapshotIndex = n.lastSnapshotIndex
  snapTerm : n'.lastSnapshotTerm = n.lastSnapshotTerm

/-- The check of the previous record. -/
def AcceptsPrev (n : RaftNode) (request : AppendEntriesRequest) : Prop :=
  n.lastSnapshotIndex ≤ request.prevLogIndex ∧
    n.hasLogAtIndexLocked request.prevLogIndex = true ∧
    n.termAtIndexLocked request.prevLogIndex = request.prevLogTerm

namespace SameView

variable {n n' : RaftNode}

theorem logInv (h : SameView n n') (hinv : LogInv n) : LogInv n' :=
  hinv.congr h.log h.snapIndex h.snapTerm

theorem lastLogIndexLocked (h : SameView n n') : n'.lastLogIndexLocked = n.lastLogIndexLocked := by
  rw [RaftNode.lastLogIndexLocked, RaftNode.lastLogIndexLocked, h.log, h.snapIndex]

theorem hasLogAtIndexLocked (h : SameView n n') (i : Nat) :
    n'.hasLogAtIndexLocked i = n.hasLogAtIndexLocked i := by
  rw [RaftNode.hasLogAtIndexLocked, RaftNode.hasLogAtIndexLocked, h.log]

theorem logAtIndexLocked (h : SameView n n') (i : Nat) :
    n'.logAtIndexLocked i = n.logAtIndexLocked i := by
  rw [RaftNode.logAtIndexLocked, RaftNode.logAtIndexLocked, h.hasLogAtIndexLocked, logOffsetLocked,
    logOffsetLocked, firstLogIndexLocked, firstLogIndexLocked, h.log, h.snapIndex]

theorem termAtIndexLocked (h : SameView n n') (i : Nat) :
    n'.termAtIndexLocked i = n.termAtIndexLocked i := by
  rw [RaftNode.termAtIndexLocked, RaftNode.termAtIndexLocked, h.logAtIndexLocked, h.snapIndex,
    h.snapTerm]

theorem acceptsPrev (h : SameView n n') (request : AppendEntriesRequest) :
    n'.AcceptsPrev request ↔ n.AcceptsPrev request := by
  rw [AcceptsPrev, AcceptsPrev, h.hasLogAtIndexLocked, h.termAtIndexLocked, h.snapIndex]

theorem appendEntriesResponse (h : SameView n n') :
    n'.appendEntriesResponse = n.appendEntriesResponse := by
  rw [RaftNode.appendEntriesResponse, RaftNode.appendEntriesResponse, h.lastLogIndexLocked, h.term,
    h.snapIndex]

theorem conflictHint (h : SameView n n') (probe : Nat) (response : AppendEntriesResponse) :
    n'.setAppendEntriesConflictHintLocked probe response =
      n.setAppendEntriesConflictHintLocked probe response := by
  simp only [setAppendEntriesConflictHintLocked, h.hasLogAtIndexLocked, h.termAtIndexLocked,
    h.lastLogIndexLocked, h.snapIndex, firstIndexOfTermLocked, h.log]

theorem agreesWith (h : SameView n n') (L : List LogRecord) (k : Nat) :
    n'.AgreesWith L k ↔ n.AgreesWith L k := by
  simp only [AgreesWith, h.logAtIndexLocked, h.snapIndex]

theorem logMatches (h : SameView n n') (L : List LogRecord) :
    n'.LogMatches L ↔ n.LogMatches L := by
  simp only [LogMatches, h.logAtIndexLocked, h.agreesWith]

end SameView

theorem acceptLeaderLocked_sameView {n : RaftNode} {term : Nat} (hterm : n.currentTerm = term)
    (leaderId : NodeId) :
    SameView n (n.acceptLeaderLocked term leaderId true).1 ∧
      (n.acceptLeaderLocked term leaderId true).2 = true := by
  refine ⟨?_, ?_⟩
  · constructor <;> grind [acceptLeaderLocked, becomeFollowerLocked, resetElectionTimerLocked,
      cancelElectionTimerLocked]
  · grind [acceptLeaderLocked, becomeFollowerLocked]

/-- A request whose previous record the node does not hold is answered with the hint. -/
theorem onAppendEntries_rejected {n : RaftNode} {request : AppendEntriesRequest}
    (hterm : n.currentTerm = request.term) (hprev : ¬ n.AcceptsPrev request) :
    SameView n (n.onAppendEntries request true true true).1 ∧
      (n.onAppendEntries request true true true).2.1 =
        n.setAppendEntriesConflictHintLocked request.prevLogIndex n.appendEntriesResponse := by
  obtain ⟨hview, hok⟩ := acceptLeaderLocked_sameView hterm request.leaderId
  rw [← hview.acceptsPrev] at hprev
  unfold onAppendEntries
  rw [if_neg (by omega)]
  generalize n.acceptLeaderLocked request.term request.leaderId true = res at *
  obtain ⟨m, ok⟩ := res
  simp only at hview hok hprev ⊢
  rw [if_neg (by simp [hok]), if_pos]
  · exact ⟨hview, by rw [hview.conflictHint, hview.appendEntriesResponse]⟩
  · by_contra hno
    simp only [not_or, not_lt, Bool.not_eq_true', Bool.not_eq_false, not_not] at hno
    exact hprev hno

/-- What a request of the current term does that passes the check of the previous record. -/
structure Accepted (L : List LogRecord) (request : AppendEntriesRequest) (n n' : RaftNode)
    (response : AppendEntriesResponse) : Prop where
  inv : LogInv n'
  term : n'.currentTerm = n.currentTerm
  snapIndex : n'.lastSnapshotIndex = n.lastSnapshotIndex
  snapTerm : n'.lastSnapshotTerm = n.lastSnapshotTerm
  head : n'.log.head? = n.log.head?
  agrees : n'.AgreesWith L request.verified
  log : n'.log = n.log ∨
    n'.lastLogIndexLocked = request.verified ∧ ¬ n.AgreesWith L request.verified
  commit : n'.commitIndex = max n.commitIndex (min request.leaderCommit n'.lastLogIndexLocked)
  reply : response = ⟨n.currentTerm, true, request.verified, n'.lastLogIndexLocked, 0, 0⟩

theorem AcceptsPrev.agreesWith {n : RaftNode} {L : List LogRecord} {request : AppendEntriesRequest}
    (hprev : n.AcceptsPrev request) (hinv : LogInv n) (hmatches : n.LogMatches L)
    (hw : request.WindowOf L) : n.AgreesWith L request.prevLogIndex := by
  obtain ⟨hsnap, hhas, hterm⟩ := hprev
  rcases Nat.lt_or_eq_of_le hsnap with hlt | heq
  · have hle := hw.prev_le
    have hpos : request.prevLogIndex - 1 < L.length := by omega
    obtain ⟨r, hr, -⟩ := hinv.getElem?_logOffsetLocked hhas
    have hget : n.logAtIndexLocked request.prevLogIndex = some r := by
      rw [logAtIndexLocked, if_pos hhas, hr]
    rw [hw.prevTerm, termAtIndexLocked, if_neg (by omega), hget] at hterm
    refine hmatches _ r L[request.prevLogIndex - 1] (by omega) hget
      (List.getElem?_eq_getElem hpos) (hterm.trans ?_)
    obtain ⟨k, hk⟩ : ∃ k, request.prevLogIndex = k + 1 := ⟨request.prevLogIndex - 1, by omega⟩
    simp only [hk, Nat.add_sub_cancel] at hpos ⊢
    simp [termAt, List.getElem?_eq_getElem hpos]
  · exact ⟨hw.prev_le, fun i hi hle => by omega⟩

theorem onAppendEntries_accepted {n : RaftNode} {L : List LogRecord} (hL : Indexed L)
    {request : AppendEntriesRequest} (hinv : LogInv n) (hmatches : n.LogMatches L)
    (hw : request.WindowOf L) (hterm : n.currentTerm = request.term)
    (hprev : n.AcceptsPrev request) :
    Accepted L request n (n.onAppendEntries request true true true).1
      (n.onAppendEntries request true true true).2.1 := by
  obtain ⟨hview, hok⟩ := acceptLeaderLocked_sameView hterm request.leaderId
  unfold onAppendEntries
  rw [if_neg (by omega)]
  generalize n.acceptLeaderLocked request.term request.leaderId true = res at *
  obtain ⟨m, ok⟩ := res
  simp only at hview hok ⊢
  have hprev' := (hview.acceptsPrev request).mpr hprev
  have hinv' := hview.logInv hinv
  have hmatches' := (hview.logMatches L).mpr hmatches
  obtain ⟨hsnap, hhas, hprevTerm⟩ := hprev'
  have hlast := ((hinv'.hasLogAtIndexLocked _).mp hhas).2
  have hlen := hinv'.lastLogIndexLocked
  rw [if_neg (by simp [hok]), if_neg (by simp [hhas, hprevTerm, hsnap])]
  obtain ⟨o, ho, hmatch, hdone⟩ := appendLoop_done hL request.entries
    ⟨m, false, request.prevLogIndex⟩ hinv' hmatches'
    (((hview.acceptsPrev request).mpr hprev).agreesWith hinv' hmatches' hw) hsnap
    (by simp only; omega) hw.entries
  have hframe := appendLoop_frame request.entries ⟨m, false, request.prevLogIndex⟩
  simp only [ho] at hframe
  have hverified : o.matchIndex = request.verified := hmatch
  -- what holds of the node behind the loop and its save, whatever its commit index becomes
  obtain ⟨m₁, hm₁, hview₁⟩ : ∃ m₁, (if o.logChanged = true then o.node.persistStateLocked true
      else o.node) = m₁ ∧ SameView o.node m₁ := by
    refine ⟨_, rfl, ?_⟩
    split
    · constructor <;> simp
    · exact ⟨rfl, rfl, rfl, rfl, rfl⟩
  have hresult : ∀ n' : RaftNode, SameView { m₁ with commitIndex := n'.commitIndex } n' →
      n'.commitIndex = max n.commitIndex (min request.leaderCommit m₁.lastLogIndexLocked) →
      Accepted L request n n' { m₁.appendEntriesResponse with
        success := true, matchIndex := o.matchIndex } := by
    intro n' hview' hcommit
    have hloop : SameView { o.node with commitIndex := n'.commitIndex } n' :=
      ⟨hview'.term.trans hview₁.term, hview'.log.trans hview₁.log, rfl,
        hview'.snapIndex.trans hview₁.snapIndex, hview'.snapTerm.trans hview₁.snapTerm⟩
    have hlast' : n'.lastLogIndexLocked = o.node.lastLogIndexLocked := hloop.lastLogIndexLocked
    have hterm' : o.node.currentTerm = n.currentTerm := by
      rw [hframe]
      exact hview.term
    refine ⟨hdone.inv.congr hloop.log hloop.snapIndex hloop.snapTerm, hloop.term.trans hterm', ?_,
      ?_, ?_, ?_, ?_, ?_, ?_⟩
    · rw [hloop.snapIndex, hframe]
      exact hview.snapIndex
    · rw [hloop.snapTerm, hframe]
      exact hview.snapTerm
    · rw [hloop.log, hdone.head]
      exact congrArg _ hview.log
    · rw [← hverified]
      exact hdone.agrees.congr hloop.log hloop.snapIndex
    · rcases hdone.cases with ⟨hnode, -⟩ | ⟨-, hend, hparts⟩
      · left
        rw [hloop.log, hnode]
        exact hview.log
      · right
        rw [hlast', hend, ← hverified]
        exact ⟨rfl, fun hall => hparts ((hview.agreesWith L _).mpr hall)⟩
    · rw [hcommit, hlast', hview₁.lastLogIndexLocked]
    · rw [RaftNode.appendEntriesResponse, hview₁.lastLogIndexLocked, hview₁.term, hterm', hlast',
        hverified]
  have hcommit₁ : m₁.commitIndex = n.commitIndex := by
    rw [hview₁.commit, hframe]
    exact hview.commit
  unfold appendEntriesBody
  simp only [ho, Bool.not_true, Bool.and_false, Bool.false_eq_true, if_false, hm₁, if_true]
  split
  · rename_i hlt
    refine hresult _ (by constructor <;> simp) ?_
    rw [persistStateLocked_commitIndex]
    simp only
    omega
  · refine hresult _ ⟨rfl, rfl, rfl, rfl, rfl⟩ ?_
    simp only
    omega

namespace Accepted

variable {L : List LogRecord} {request : AppendEntriesRequest} {n n' : RaftNode}
  {response : AppendEntriesResponse}

/-- Agreement with the leader never shrinks: the log is cut only where it has ended. -/
theorem agreesWith (h : Accepted L request n n' response) {k : Nat} (hk : n.AgreesWith L k) :
    n'.AgreesWith L k := by
  rcases h.log with hlog | ⟨-, hparts⟩
  · exact hk.congr hlog h.snapIndex
  · refine h.agrees.of_le ?_
    by_contra hlong
    exact hparts (hk.of_le (by omega))

theorem logMatches (h : Accepted L request n n' response) (hmatches : n.LogMatches L) :
    n'.LogMatches L := by
  intro i r r' hi hr hr' hterm
  rcases h.log with hlog | ⟨hend, -⟩
  · have hview : SameView { n with commitIndex := n'.commitIndex } n' :=
      ⟨h.term, hlog, rfl, h.snapIndex, h.snapTerm⟩
    exact (hview.logMatches L).mpr hmatches i r r' hi hr hr' hterm
  · refine h.agrees.of_le ?_
    have hlast := h.inv.lastLogIndexLocked
    rw [h.inv.logAtIndexLocked] at hr
    split at hr
    · have := (List.getElem?_eq_some_iff.mp hr).1
      omega
    · cases hr

/-- The node passes the check of the previous record once more. -/
theorem acceptsPrev (h : Accepted L request n n' response) (hw : request.WindowOf L)
    (hprev : n.AcceptsPrev request) : n'.AcceptsPrev request := by
  obtain ⟨hsnap, hhas, hterm⟩ := hprev
  rw [← h.snapIndex] at hsnap
  rcases Nat.lt_or_eq_of_le hsnap with hlt | heq
  · have hagrees : n'.AgreesWith L request.prevLogIndex :=
      h.agrees.of_le (Nat.le_add_right _ _)
    have hlast := h.inv.le_last_of_agreesWith hagrees hlt
    have hlen := h.inv.lastLogIndexLocked
    refine ⟨hsnap, (h.inv.hasLogAtIndexLocked _).mpr ⟨hsnap, by omega⟩, ?_⟩
    have hpos : request.prevLogIndex - 1 < L.length := by
      have := hw.prev_le
      omega
    rw [termAtIndexLocked, if_neg (by omega), hagrees.2 _ hlt le_rfl, hw.prevTerm,
      List.getElem?_eq_getElem hpos]
    obtain ⟨k, hk⟩ : ∃ k, request.prevLogIndex = k + 1 := ⟨request.prevLogIndex - 1, by omega⟩
    simp only [hk, Nat.add_sub_cancel] at hpos ⊢
    simp [termAt, List.getElem?_eq_getElem hpos]
  · have hpos := List.length_pos_iff.mpr h.inv.nonempty
    refine ⟨hsnap, (h.inv.hasLogAtIndexLocked _).mpr ⟨hsnap, by omega⟩, ?_⟩
    rw [termAtIndexLocked, if_pos (heq.symm.trans h.snapIndex)] at hterm
    rw [termAtIndexLocked, if_pos heq.symm, h.snapTerm, hterm]

/-- The same request once more changes nothing and is answered alike. -/
theorem again {n'' : RaftNode} {response' : AppendEntriesResponse}
    (h : Accepted L request n n' response) (h' : Accepted L request n' n'' response') :
    n''.log = n'.log ∧ n''.commitIndex = n'.commitIndex ∧ response' = response := by
  have hlog : n''.log = n'.log := h'.log.resolve_right fun hparts => hparts.2 h.agrees
  have hlast : n''.lastLogIndexLocked = n'.lastLogIndexLocked := by
    rw [lastLogIndexLocked, lastLogIndexLocked, hlog, h'.snapIndex]
  refine ⟨hlog, ?_, ?_⟩
  · have hcommit := h.commit
    rw [h'.commit, hlast]
    omega
  · rw [h'.reply, h.reply, hlast, h.term]

end Accepted

/-! ## Sequences of requests -/

end RaftNode

/-- The log of a leader over the time of its term: it only grows. -/
structure LeaderTimeline where
  log : Nat → List LogRecord
  grows : ∀ j k, j ≤ k → log j <+: log k
  indexed : ∀ k, Indexed (log k)

namespace RaftNode

variable {L : LeaderTimeline} {t : Nat} {n n' : RaftNode}

/-- A node in the leader's term whose log matches the leader's at all times. -/
structure Follows (L : LeaderTimeline) (t : Nat) (n : RaftNode) : Prop where
  inv : LogInv n
  term : n.currentTerm = t
  logMatches : ∀ k, n.LogMatches (L.log k)

/-- A window of the leader's log, built at some time of its term. -/
def FromLeader (L : LeaderTimeline) (t : Nat) (request : AppendEntriesRequest) : Prop :=
  request.term = t ∧ ∃ j, request.WindowOf (L.log j)

/-- The follower handles one of the requests, or applies what it has committed. -/
inductive FollowerStep (L : LeaderTimeline) (t : Nat) : RaftNode → RaftNode → Prop where
  | handle (n : RaftNode) {request : AppendEntriesRequest} (h : FromLeader L t request) :
    FollowerStep L t n (n.onAppendEntries request true true true).1
  | applyPick (n : RaftNode) : FollowerStep L t n n.applyPick.1
  | applyFinish (n : RaftNode) (index : Nat) (saved : Bool) :
    FollowerStep L t n (n.applyFinish index saved).1

/-- What handling a request leaves, seen against the leader's log at any time. -/
theorem Follows.handle (h : Follows L t n) {request : AppendEntriesRequest}
    (hfrom : FromLeader L t request) (k : Nat) :
    SameView n (n.onAppendEntries request true true true).1 ∧ ¬ n.AcceptsPrev request ∨
      n.AcceptsPrev request ∧ ∃ K, L.log k <+: L.log K ∧ request.WindowOf (L.log K) ∧
        Accepted (L.log K) request n (n.onAppendEntries request true true true).1
          (n.onAppendEntries request true true true).2.1 := by
  obtain ⟨hterm, j, hw⟩ := hfrom
  by_cases hprev : n.AcceptsPrev request
  · right
    have hw' := hw.mono (L.grows j (max j k) (le_max_left j k))
    exact ⟨hprev, max j k, L.grows _ _ (le_max_right j k), hw',
      onAppendEntries_accepted (L.indexed _) h.inv (h.logMatches _) hw' (h.term.trans hterm.symm)
        hprev⟩
  · exact .inl ⟨(onAppendEntries_rejected (h.term.trans hterm.symm) hprev).1, hprev⟩

theorem Follows.agreesWith (h : Follows L t n) {request : AppendEntriesRequest}
    (hfrom : FromLeader L t request) {k i : Nat} (hi : n.AgreesWith (L.log k) i) :
    (n.onAppendEntries request true true true).1.AgreesWith (L.log k) i := by
  rcases h.handle hfrom k with ⟨hview, -⟩ | ⟨-, K, hle, -, haccepted⟩
  · exact (hview.agreesWith _ _).mpr hi
  · exact (haccepted.agreesWith (hi.mono hle)).restrict hle hi.1

/-- A record that agrees with the leader's stays: behind it everything agrees. -/
theorem Follows.record_kept (h : Follows L t n) {request : AppendEntriesRequest}
    (hfrom : FromLeader L t request) {k i : Nat} {r : LogRecord}
    (hr : n.logAtIndexLocked i = some r) (hr' : (L.log k)[i - 1]? = some r) (hi : 0 < i) :
    (n.onAppendEntries request true true true).1.logAtIndexLocked i = some r := by
  have hagrees := h.agreesWith hfrom (h.logMatches k i r r hi hr hr' rfl)
  rcases h.handle hfrom k with ⟨hview, -⟩ | ⟨-, K, -, -, haccepted⟩
  · rw [hview.logAtIndexLocked, hr]
  · rw [h.inv.logAtIndexLocked] at hr
    split at hr
    · rename_i hsnap
      rcases Nat.lt_or_eq_of_le hsnap with hlt | rfl
      · rw [hagrees.2 i (haccepted.snapIndex.symm ▸ hlt) le_rfl, hr']
      · -- the head of the log is never cut
        have hhead := haccepted.head
        rw [List.head?_eq_getElem?, List.head?_eq_getElem?] at hhead
        rw [Nat.sub_self] at hr
        rw [haccepted.inv.logAtIndexLocked, if_pos haccepted.snapIndex.le, haccepted.snapIndex,
          Nat.sub_self, hhead, hr]
    · cases hr

/-- The same request once more. -/
theorem Follows.again (h : Follows L t n) {request : AppendEntriesRequest}
    (hfrom : FromLeader L t request) :
    let once := n.onAppendEntries request true true true
    let twice := once.1.onAppendEntries request true true true
    twice.1.log = once.1.log ∧ twice.1.commitIndex = once.1.commitIndex ∧
      twice.2.1 = once.2.1 := by
  intro once twice
  have hterm : n.currentTerm = request.term := h.term.trans hfrom.1.symm
  rcases h.handle hfrom 0 with ⟨hview, hprev⟩ | ⟨hprev, K, -, hw, haccepted⟩
  · have hprev' : ¬ once.1.AcceptsPrev request := (hview.acceptsPrev request).not.mpr hprev
    obtain ⟨hview', hreply'⟩ := onAppendEntries_rejected (hview.term.trans hterm) hprev'
    obtain ⟨-, hreply⟩ := onAppendEntries_rejected hterm hprev
    refine ⟨hview'.log, hview'.commit, ?_⟩
    rw [hreply', hreply, hview.conflictHint, hview.appendEntriesResponse]
  · exact haccepted.again (onAppendEntries_accepted (L.indexed K) haccepted.inv
      (haccepted.logMatches (h.logMatches K)) hw (haccepted.term.trans hterm)
      (haccepted.acceptsPrev hw hprev))

theorem Follows.sameView (h : Follows L t n) (hview : SameView n n') :
    Follows L t n' ∧ ∀ k i, n.AgreesWith (L.log k) i → n'.AgreesWith (L.log k) i :=
  ⟨⟨hview.logInv h.inv, hview.term.trans h.term, fun k =>
    (hview.logMatches _).mpr (h.logMatches k)⟩,
    fun _ _ hi => (hview.agreesWith _ _).mpr hi⟩

theorem applyPick_sameView (n : RaftNode) : SameView n n.applyPick.1 := by
  constructor <;> grind [applyPick]

theorem applyFinish_sameView (n : RaftNode) (index : Nat) (saved : Bool) :
    SameView n (n.applyFinish index saved).1 := by
  constructor <;> grind [applyFinish, persistStateLocked]

/-- One step of the follower keeps it a follower and keeps its agreement with the leader. -/
theorem Follows.step (h : Follows L t n) (hstep : FollowerStep L t n n') :
    Follows L t n' ∧ ∀ k i, n.AgreesWith (L.log k) i → n'.AgreesWith (L.log k) i := by
  cases hstep with
  | handle hfrom =>
    refine ⟨?_, fun k i hi => h.agreesWith hfrom hi⟩
    refine ⟨h.inv.onAppendEntries _ true true true, ?_, fun k => ?_⟩
    · rcases h.handle hfrom 0 with ⟨hview, -⟩ | ⟨-, K, -, -, haccepted⟩
      · exact hview.term.trans h.term
      · exact haccepted.term.trans h.term
    · rcases h.handle hfrom k with ⟨hview, -⟩ | ⟨-, K, hle, -, haccepted⟩
      · exact (hview.logMatches _).mpr (h.logMatches k)
      · intro i r r' hi hr hr' hterm
        have hlt := (List.getElem?_eq_some_iff.mp hr').1
        have hr'' : (L.log K)[i - 1]? = some r' := by
          rw [List.prefix_iff_getElem?.mp hle _ hlt, ← hr', List.getElem?_eq_getElem hlt]
        exact (haccepted.logMatches (h.logMatches K) i r r' hi hr hr'' hterm).restrict hle
          (by omega)
  | applyPick => exact h.sameView n.applyPick_sameView
  | applyFinish index saved => exact h.sameView (n.applyFinish_sameView index saved)

theorem Follows.run (h : Follows L t n) (hrun : Relation.ReflTransGen (FollowerStep L t) n n') :
    Follows L t n' ∧ ∀ k i, n.AgreesWith (L.log k) i → n'.AgreesWith (L.log k) i := by
  induction hrun with
  | refl => exact ⟨h, fun _ _ hi => hi⟩
  | tail _ hstep ih =>
    obtain ⟨hfollows, hkept⟩ := ih
    obtain ⟨hfollows', hkept'⟩ := hfollows.step hstep
    exact ⟨hfollows', fun k i hi => hkept' k i (hkept k i hi)⟩

/-- Requests of the leader in any order and with any repeats: none shortens the prefix on which
the follower agrees with the leader, none removes a record that agrees with the leader's, and
the same request twice in a row does what it does once. -/
theorem onAppendEntries_insensitive (h : Follows L t n)
    (hrun : Relation.ReflTransGen (FollowerStep L t) n n') {request : AppendEntriesRequest}
    (hfrom : FromLeader L t request) :
    let once := n'.onAppendEntries request true true true
    let twice := once.1.onAppendEntries request true true true
    (∀ k i, n.AgreesWith (L.log k) i → n'.AgreesWith (L.log k) i) ∧
      (∀ k i, n'.AgreesWith (L.log k) i → once.1.AgreesWith (L.log k) i) ∧
      (∀ k i r, 0 < i → n'.logAtIndexLocked i = some r → (L.log k)[i - 1]? = some r →
        once.1.logAtIndexLocked i = some r) ∧
      twice.1.log = once.1.log ∧ twice.1.commitIndex = once.1.commitIndex ∧
      twice.2.1 = once.2.1 := by
  obtain ⟨hfollows, hkept⟩ := h.run hrun
  exact ⟨hkept, fun k i hi => hfollows.agreesWith hfrom hi,
    fun k i r hi hr hr' => hfollows.record_kept hfrom hr hr' hi, hfollows.again hfrom⟩

/-- A follower in term 2 with a record 2 of term 1. -/
def staleFollower : RaftNode :=
  recover 2 [1, 3] (some ⟨2, -1, 0, 0, [bootstrapRecord, ⟨1, 1, [1]⟩, ⟨2, 1, [1]⟩]⟩)

/-- The leader of term 2 has its own record 2. -/
def shortTimeline : LeaderTimeline where
  log _ := [⟨1, 1, [1]⟩, ⟨2, 2, [2]⟩]
  grows _ _ _ := List.prefix_refl _
  indexed _ i hi := by
    have hi' : i < 2 := hi
    interval_cases i <;> rfl

theorem staleFollower_follows : Follows shortTimeline 2 staleFollower where
  inv := by
    refine ⟨by decide, fun k hk => ?_, rfl⟩
    have hk' : k < 3 := hk
    interval_cases k <;> rfl
  term := rfl
  logMatches _ i r r' hi hr hr' hterm := by
    have hlt : i - 1 < 2 := (List.getElem?_eq_some_iff.mp hr').1
    obtain rfl | rfl : i = 1 ∨ i = 2 := by omega
    · refine ⟨one_le_two, fun j hj hle => ?_⟩
      obtain rfl : j = 1 := by
        have : 0 < j := hj
        omega
      rfl
    · cases hr
      cases hr'
      cases hterm

/-- The stale record is cut once, and the second time nothing is left to do. -/
theorem onAppendEntries_insensitive_stale :
    ∃ request, FromLeader shortTimeline 2 request ∧
      (staleFollower.onAppendEntries request true true true).1.log ≠ staleFollower.log ∧
      ((staleFollower.onAppendEntries request true true true).1.onAppendEntries request true true
        true).1.log = (staleFollower.onAppendEntries request true true true).1.log := by
  have hfrom : FromLeader shortTimeline 2 ⟨2, 1, 1, 1, [⟨2, 2, [2]⟩], 0⟩ :=
    ⟨rfl, 0, by decide, rfl, ⟨[], rfl⟩⟩
  refine ⟨_, hfrom, by decide, ?_⟩
  exact (onAppendEntries_insensitive staleFollower_follows .refl hfrom).2.2.2.1

end RaftNode

end CquptRaft
