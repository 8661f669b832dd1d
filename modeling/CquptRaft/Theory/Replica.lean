import CquptRaft.Theory.History

/-!
# Replicas

A replica is what one member holds at one place, in memory or on disk: its term, its log, how
much of the log a snapshot covers, and how much of it is committed. `Sound` is the invariant
of a replica against the history, and `Backed` relates memory to disk. The lemmas are the
moves of a replica: a later term, a compaction or installed snapshot, entries of the leader, a
commit, and an acknowledgement.
-/

namespace Replication

open Voting History

structure Replica (E : Type*) where
  term : Nat
  log : List E
  snap : Nat
  commit : Nat

variable {N E : Type*} {H H' : History N E} {members : Finset N} {τ : E → Nat} {q : N}

/-- The invariant of a replica of member `q`. An entry behind the snapshot is of a term the
replica has reached; what `q` has acknowledged is still there, unless it is lost. -/
structure Sound (H : History N E) (members : Finset N) (τ : E → Nat) (q : N) (r : Replica E) :
    Prop where
  good : Good τ H.leaderLog r.log
  snap_le : r.snap ≤ r.commit
  commit_le : r.commit ≤ r.log.length
  base : H.Chosen members (r.log.take r.snap)
  committed : r.commit = r.snap ∨ H.ChosenBy members r.term (r.log.take r.commit)
  late : ∀ i, r.snap < i → i ≤ r.log.length → termAt τ r.log i ≤ r.term
  keeps : ∀ T i, H.acks q T i → H.Lost T i ∨ H.written T i <+: r.log ∧ (T ≤ r.term ∨ i ≤ r.snap)

/-- Every prefix of the log in memory is on disk, reached by the durable term or covered by
the durable snapshot, or chosen. -/
structure Backed (H : History N E) (members : Finset N) (τ : E → Nat) (mem dur : Replica E) :
    Prop where
  term_le : dur.term ≤ mem.term
  backed : ∀ i, 0 < i → i ≤ mem.log.length →
    mem.log.take i <+: dur.log ∧ (i ≤ dur.snap ∨ termAt τ mem.log i ≤ dur.term) ∨
    H.ChosenBy members mem.term (mem.log.take i)

namespace Sound

variable {r r' : Replica E}

theorem chosen (h : Sound H members τ q r) : H.Chosen members (r.log.take r.commit) := by
  rcases h.committed with heq | hch
  · exact heq ▸ h.base
  · exact hch.chosen

theorem snap_le_length (h : Sound H members τ q r) : r.snap ≤ r.log.length :=
  h.snap_le.trans h.commit_le

/-- A longer history keeps a replica sound, when the replica has what its member newly
acknowledged. -/
theorem mono (h : Sound H members τ q r) (hH : H.Valid members τ) (hext : Extends H H')
    (hacks : ∀ T i, H'.acks q T i → H.acks q T i ∨
      H'.written T i <+: r.log ∧ (T ≤ r.term ∨ i ≤ r.snap)) :
    Sound H' members τ q r where
  good := h.good.mono hext.leaderLog
  snap_le := h.snap_le
  commit_le := h.commit_le
  base := hext.chosen hH h.base
  committed := h.committed.imp id (hext.chosenBy hH)
  late := h.late
  keeps T i hack := by
    rcases hacks T i hack with hold | hnew
    · have hi := (hH.acked hold).2.1
      rw [hext.written_eq hi]
      exact (h.keeps T i hold).imp (hext.lost hi) id
    · exact .inr hnew

theorem raise (h : Sound H members τ q r) {t : Nat} (ht : r.term ≤ t) :
    Sound H members τ q { r with term := t } where
  good := h.good
  snap_le := h.snap_le
  commit_le := h.commit_le
  base := h.base
  committed := h.committed.imp id fun hch => hch.mono_term ht
  late i hi hlen := (h.late i hi hlen).trans ht
  keeps T i hack := (h.keeps T i hack).imp id fun ⟨hle, hT⟩ => ⟨hle, hT.imp (·.trans ht) id⟩

theorem commitTo (h : Sound H members τ q r) {k : Nat} (hk : r.commit ≤ k)
    (hlen : k ≤ r.log.length) (hch : H.ChosenBy members r.term (r.log.take k)) :
    Sound H members τ q { r with commit := k } where
  good := h.good
  snap_le := h.snap_le.trans hk
  commit_le := hlen
  base := h.base
  committed := .inr hch
  late := h.late
  keeps := h.keeps

/-- A chosen prefix `π` that reaches beyond the commit index and is not a prefix of the log
has all that is committed. -/
theorem commit_lt_of_not_le (h : Sound H members τ q r) (hH : H.Valid members τ) {π : List E}
    (hπ : H.Chosen members π) (hnot : ¬ π <+: r.log) : r.log.take r.commit <+: π := by
  rcases hH.chosen_comparable h.chosen hπ with hle | hle
  · exact hle
  · exact absurd (hle.trans (take_le _ _)) hnot

/-- The snapshot of a chosen prefix enters: the log stays when it has the prefix, and is
replaced by the prefix when it has not. -/
theorem install (h : Sound H members τ q r) (hH : H.Valid members τ) {π : List E}
    (hπ : H.Chosen members π) (hsnap : r.snap ≤ π.length)
    (hlog : π <+: r.log ∧ r'.log = r.log ∨ ¬ π <+: r.log ∧ r'.log = π)
    (hterm : r'.term = r.term) (hsnap' : r'.snap = π.length)
    (hcommit : r'.commit = max r.commit π.length) : Sound H members τ q r' := by
  rcases hlog with ⟨hle, hlog⟩ | ⟨hnot, hlog⟩
  · have htake : r.log.take π.length = π := (List.prefix_iff_eq_take.mp hle).symm
    refine ⟨hlog ▸ h.good, by omega, ?_, ?_, ?_, ?_, ?_⟩
    · rw [hcommit, hlog]
      exact max_le h.commit_le hle.length_le
    · rw [hlog, hsnap', htake]
      exact hπ
    · rcases le_or_gt r.commit π.length with hc | hc
      · exact .inl (by omega)
      · right
        rw [hlog, hterm, hcommit, max_eq_left hc.le]
        exact h.committed.resolve_left (by omega)
    · intro i hi hlen
      rw [hlog, hterm]
      exact h.late i (by omega) (hlog ▸ hlen)
    · intro T i hack
      rw [hlog, hterm, hsnap']
      exact (h.keeps T i hack).imp id fun ⟨hle, hT⟩ => ⟨hle, hT.imp id fun hi => hi.trans hsnap⟩
  · have hcommit' : r.commit ≤ π.length := by
      have := (h.commit_lt_of_not_le hH hπ hnot).length_le
      rwa [List.length_take, min_eq_left h.commit_le] at this
    refine ⟨hlog ▸ hH.chosen_good hπ, by omega, ?_, ?_, .inl (by omega), ?_, ?_⟩
    · rw [hlog]
      omega
    · rw [hlog, hsnap', List.take_length]
      exact hπ
    · intro i hi hlen
      rw [hlog] at hlen
      omega
    · intro T i hack
      rcases h.keeps T i hack with hlost | ⟨hle, -⟩
      · exact .inl hlost
      · by_cases hlost : H.Lost T i
        · exact .inl hlost
        · right
          have hcmp := hH.acked_comparable hack hlost hπ
          have hle' : H.written T i <+: π := hcmp.resolve_right fun hge => hnot (hge.trans hle)
          refine ⟨hlog ▸ hle', .inr ?_⟩
          rw [hsnap', ← hH.written_length hack]
          exact hle'.length_le

/-- What is committed stays where it is. -/
theorem install_take (h : Sound H members τ q r) (hH : H.Valid members τ) {π : List E}
    (hπ : H.Chosen members π)
    (hlog : π <+: r.log ∧ r'.log = r.log ∨ ¬ π <+: r.log ∧ r'.log = π) {i : Nat}
    (hi : i ≤ r.commit) : r'.log.take i = r.log.take i := by
  rcases hlog with ⟨-, hlog⟩ | ⟨hnot, hlog⟩
  · rw [hlog]
  · rw [hlog, ← take_eq_of_le (h.commit_lt_of_not_le hH hπ hnot) (by
      rw [List.length_take, min_eq_left h.commit_le]
      exact hi), List.take_take, min_eq_left hi]

/-- A prefix of the log of the replica's own leader replaces the log. It keeps all that the
two logs had in common, and all that the snapshot covers. -/
theorem accept (h : Sound H members τ q r) (hH : H.Valid members τ) (hT : H.Elected r.term)
    {k : Nat}
    (hcommon : ∀ P, P <+: r.log → P <+: H.leaderLog r.term → P <+: H.written r.term k)
    (hsnap : r.log.take r.snap <+: H.leaderLog r.term) :
    Sound H members τ q { r with log := H.written r.term k } ∧
      ∀ i ≤ r.commit, (H.written r.term k).take i = r.log.take i := by
  have hbase : r.log.take r.snap <+: H.written r.term k := hcommon _ (take_le _ _) hsnap
  -- what is committed is in the log of this leader
  have hcommitted : r.log.take r.commit <+: H.written r.term k := by
    rcases h.committed with heq | hch
    · exact heq ▸ hbase
    · exact hcommon _ (take_le _ _) (hH.chosenBy_le hch hT le_rfl)
  have hlen : (r.log.take r.commit).length = r.commit := by simp [h.commit_le]
  have htake : ∀ i ≤ r.commit, (H.written r.term k).take i = r.log.take i := by
    intro i hi
    rw [← take_eq_of_le hcommitted (hi.trans hlen.ge), List.take_take, min_eq_left hi]
  refine ⟨⟨(hH.leaderLog_good _).take k, h.snap_le, hlen ▸ hcommitted.length_le, ?_, ?_, ?_, ?_⟩,
    htake⟩
  · simp only [htake r.snap h.snap_le]
    exact h.base
  · simp only [htake r.commit le_rfl]
    exact h.committed
  · intro i _ _
    exact termAt_le_of_forall τ
      (fun x hx => hH.term_le r.term x ((take_le _ k).subset hx)) i
  · intro T i hack
    rcases h.keeps T i hack with hlost | ⟨hle, hcase⟩
    · exact .inl hlost
    · rcases hcase with hTr | hi
      · rcases hTr.eq_or_lt with rfl | hlt
        · exact .inr ⟨hcommon _ hle (take_le _ i), .inl le_rfl⟩
        · -- an older acknowledgement is in the log this leader started with, or lost
          obtain ⟨e, he, heT⟩ := hT
          by_cases hpre : H.written T i <+: e.log
          · exact .inr ⟨hcommon _ hle (heT ▸ hpre.trans (hH.log_le he)), .inl hlt.le⟩
          · exact .inl ⟨e, he, heT ▸ hlt, hpre⟩
      · right
        refine ⟨?_, .inr hi⟩
        refine List.IsPrefix.trans ?_ hbase
        refine List.prefix_of_prefix_length_le hle (take_le _ _) ?_
        rw [hH.written_length hack, List.length_take, min_eq_left h.snap_le_length]
        exact hi

end Sound

namespace Backed

variable {mem mem' dur : Replica E}

theorem mono (h : Backed H members τ mem dur) (hH : H.Valid members τ) (hext : Extends H H') :
    Backed H' members τ mem dur :=
  ⟨h.term_le, fun i h0 hi => (h.backed i h0 hi).imp id (hext.chosenBy hH)⟩

/-- Memory and disk right after a save. -/
theorem save (h : Sound H members τ q mem) : Backed H members τ mem mem := by
  refine ⟨le_rfl, fun i h0 hi => .inl ⟨take_le _ i, ?_⟩⟩
  rcases le_or_gt i mem.snap with hs | hs
  · exact .inl hs
  · exact .inr (h.late i hs hi)

/-- Moves of the memory that leave the log as it is. -/
theorem of_log_eq (h : Backed H members τ mem dur) (hlog : mem'.log = mem.log)
    (hterm : mem.term ≤ mem'.term) : Backed H members τ mem' dur := by
  refine ⟨h.term_le.trans hterm, fun i h0 hi => ?_⟩
  rw [hlog] at hi ⊢
  exact (h.backed i h0 hi).imp id fun hch => hch.mono_term hterm

theorem install (h : Backed H members τ mem dur) {π : List E}
    (hπ : H.ChosenBy members mem.term π) (hterm : mem'.term = mem.term)
    (hlog : π <+: mem.log ∧ mem'.log = mem.log ∨ ¬ π <+: mem.log ∧ mem'.log = π) :
    Backed H members τ mem' dur := by
  rcases hlog with ⟨-, hlog⟩ | ⟨-, hlog⟩
  · exact h.of_log_eq hlog hterm.ge
  · refine ⟨hterm ▸ h.term_le, fun i h0 hi => .inr ?_⟩
    rw [hterm, hlog]
    exact hπ.of_le (take_le _ i)

end Backed

/-! ## Acknowledging -/

/-- Member `q` acknowledges of the first `k` entries of the leader of `T` what its disk
holds. -/
def History.acknowledge (H : History N E) (τ : E → Nat) (q : N) (T k : Nat) (dur : Replica E) :
    History N E :=
  H.withAcks fun q' T' i => H.acks q' T' i ∨ (q' = q ∧ T' = T) ∧ (0 < i ∧ i ≤ k ∧
    i ≤ (H.leaderLog T).length ∧ termAt τ (H.leaderLog T) i = T) ∧
    H.written T i <+: dur.log ∧ (T ≤ dur.term ∨ i ≤ dur.snap)

theorem History.extends_acknowledge {T k : Nat} {dur : Replica E} :
    Extends H (H.acknowledge τ q T k dur) := extends_withAcks fun _ _ _ h => .inl h

section Acknowledge

variable {T k : Nat} {mem dur : Replica E}

theorem History.Valid.acknowledge (h : H.Valid members τ)
    (hvotes : ∀ T' c, H.votes q T' c → T' ≤ T) :
    (H.acknowledge τ q T k dur).Valid members τ := by
  refine h.withAcks (fun _ _ _ h => .inl h) ?_
  rintro q' T' i (hold | ⟨⟨rfl, rfl⟩, ⟨h0, -, hi⟩, -⟩)
  · exact .inl hold
  · exact .inr ⟨hvotes, h0, hi⟩

/-- After acknowledging, every entry of the leader's own term is acknowledged or chosen. -/
theorem Backed.acknowledged (h : Backed H members τ mem dur) (hterm : mem.term = T)
    (hle : H.written T k <+: mem.log) (hk : k ≤ (H.leaderLog T).length) {i : Nat} (h0 : 0 < i)
    (hik : i ≤ k) (hi : termAt τ (H.leaderLog T) i = T) :
    (H.acknowledge τ q T k dur).acks q T i ∨ H.ChosenBy members T (H.written T i) := by
  have hpre : H.written T i <+: mem.log := (take_le_take hik).trans hle
  have hlen : (H.written T i).length = i := by simp [written, hik.trans hk]
  have htake : mem.log.take i = H.written T i := by
    rw [← take_eq_of_le hpre hlen.ge]
    simp [written, List.take_take]
  have himem : i ≤ mem.log.length := hlen ▸ hpre.length_le
  rcases h.backed i h0 himem with ⟨hdur, hcase⟩ | hch
  · refine .inl (.inr ⟨⟨rfl, rfl⟩, ⟨h0, hik, hik.trans hk, hi⟩, htake ▸ hdur, ?_⟩)
    have hmem : termAt τ mem.log i = T := by
      rw [← termAt_of_le τ hpre hlen.ge, written, termAt_take τ le_rfl, hi]
    exact hcase.symm.imp (fun h => hmem ▸ h) id
  · rw [htake, hterm] at hch
    exact .inr hch

end Acknowledge

end Replication
