import CquptRaft.Theory.Logs
import CquptRaft.Theory.Voting

/-!
# Elections, acknowledgements and chosen prefixes

A `History` is what has happened so far in a cluster that elects leaders by majority and
replicates the leaders' logs: the elections with the newest first, the log each leader has
written, the votes, the logs candidates campaigned with, and the acknowledgements. `acks q T i`
says that `q` has stored the first `i` entries of the leader of `T`, of which the last is of
term `T`.

An acknowledged prefix may be missing from a later leader; it is then `Lost`. A prefix that a
majority has acknowledged is `Chosen`, and the main result, `Valid.chosen_le`, is that it is
never lost: every election of a later term starts from a log that has it.
-/

namespace Replication

open Voting

variable {N E : Type*}

structure Election (N E : Type*) where
  term : Nat
  leader : N
  voters : Finset N
  log : List E

structure History (N E : Type*) where
  elections : List (Election N E)
  leaderLog : Nat → List E
  votes : Votes N
  ballots : Nat → N → Option (List E)
  acks : N → Nat → Nat → Prop

namespace History

variable (H : History N E)

def Elected (T : Nat) : Prop := ∃ e ∈ H.elections, e.term = T

/-- The first `i` entries of the leader of `T`. -/
def written (T i : Nat) : List E := (H.leaderLog T).take i

/-- A later election starts without this prefix. -/
def Lost (T i : Nat) : Prop := ∃ e ∈ H.elections, T < e.term ∧ ¬ H.written T i <+: e.log

/-- No voter of some election of this or a later term has voted for this campaign, so it can
never win. -/
def Doomed (T : Nat) (c : N) : Prop :=
  ∃ e ∈ H.elections, T ≤ e.term ∧ ∀ q ∈ e.voters, ¬ H.votes q T c

/-- What the voters of each election had acknowledged was in the log they elected, or lost in
an election before. -/
def Supported : List (Election N E) → Prop
  | [] => True
  | e :: older =>
    (∀ q ∈ e.voters, ∀ T i, H.acks q T i → T < e.term →
      H.written T i <+: e.log ∨ ∃ e' ∈ older, T < e'.term ∧ ¬ H.written T i <+: e'.log) ∧
    Supported older

def ChosenAt (members : Finset N) (T i : Nat) : Prop :=
  ∃ Q, IsQuorum members Q ∧ ∀ q ∈ Q, H.acks q T i

/-- Chosen in a term up to `t`. -/
def ChosenBy (members : Finset N) (t : Nat) (π : List E) : Prop :=
  π = [] ∨ ∃ T i, T ≤ t ∧ H.ChosenAt members T i ∧ π <+: H.written T i

def Chosen (members : Finset N) (π : List E) : Prop := ∃ t, H.ChosenBy members t π

structure Valid (members : Finset N) (τ : E → Nat) : Prop where
  unique : H.votes.Unique
  quorum : ∀ e ∈ H.elections, IsQuorum members e.voters
  voted : ∀ e ∈ H.elections, ∀ q ∈ e.voters, H.votes q e.term e.leader
  ballot : ∀ e ∈ H.elections, H.ballots e.term e.leader = some e.log
  distinct : ∀ e ∈ H.elections, ∀ e' ∈ H.elections, e.term = e'.term → e = e'
  older : ∀ e ∈ H.elections, ∀ x ∈ e.log, τ x < e.term
  leaderLog : ∀ e ∈ H.elections,
    ∃ s, H.leaderLog e.term = e.log ++ s ∧ ∀ x ∈ s, τ x = e.term
  empty : ∀ T, ¬ H.Elected T → H.leaderLog T = []
  acked : ∀ ⦃q T i⦄, H.acks q T i →
    0 < i ∧ i ≤ (H.leaderLog T).length ∧ termAt τ (H.leaderLog T) i = T
  supported : H.Supported H.elections
  votedKeeps : ∀ ⦃q T c⦄, H.votes q T c → ∃ ℓ, H.ballots T c = some ℓ ∧
    ∀ T' i, H.acks q T' i → T' < T → H.written T' i <+: ℓ ∨ H.Lost T' i
  ballotGood : ∀ ⦃T c ℓ⦄, H.ballots T c = some ℓ →
    Good τ H.leaderLog ℓ ∧ ((∀ x ∈ ℓ, τ x < T) ∨ H.Doomed T c)

variable {H} {members : Finset N} {τ : E → Nat}

theorem Valid.quorum_nonempty {Q : Finset N} (hQ : IsQuorum members Q) : ∃ q, q ∈ Q := by
  have := hQ.2
  exact Finset.card_pos.mp (by omega)

theorem Valid.elected_good (h : H.Valid members τ) {e : Election N E} (he : e ∈ H.elections) :
    Good τ H.leaderLog e.log := (h.ballotGood (h.ballot e he)).1

theorem Valid.log_le (h : H.Valid members τ) {e : Election N E} (he : e ∈ H.elections) :
    e.log <+: H.leaderLog e.term := by
  obtain ⟨s, hs, -⟩ := h.leaderLog e he
  exact hs ▸ List.prefix_append e.log s

theorem Valid.term_le (h : H.Valid members τ) (T : Nat) : ∀ x ∈ H.leaderLog T, τ x ≤ T := by
  by_cases hT : H.Elected T
  · obtain ⟨e, he, rfl⟩ := hT
    obtain ⟨s, hs, hsT⟩ := h.leaderLog e he
    intro x hx
    rcases List.mem_append.mp (hs ▸ hx) with hx | hx
    · exact (h.older e he x hx).le
    · exact (hsT x hx).le
  · intro x hx
    rw [h.empty T hT] at hx
    exact absurd hx List.not_mem_nil

theorem Valid.leaderLog_good (h : H.Valid members τ) (T : Nat) :
    Good τ H.leaderLog (H.leaderLog T) := by
  by_cases hT : H.Elected T
  · obtain ⟨e, he, rfl⟩ := hT
    obtain ⟨s, hs, hsT⟩ := h.leaderLog e he
    intro i h0 hi
    by_cases hie : i ≤ e.log.length
    · have hle := h.log_le he
      rw [← take_eq_of_le hle hie, ← termAt_of_le τ hle hie]
      exact h.elected_good he i h0 hie
    · -- an entry behind the log of the election is of the leader's own term
      have hterm : termAt τ (H.leaderLog e.term) i = e.term := by
        obtain ⟨i, rfl⟩ := Nat.exists_eq_succ_of_ne_zero h0.ne'
        have hlt : i < (H.leaderLog e.term).length := hi
        have hmem : (H.leaderLog e.term)[i] ∈ s := by
          simp only [hs, List.getElem_append_right (Nat.le_of_lt_succ (not_le.mp hie))]
          exact List.getElem_mem _
        simp [termAt, List.getElem?_eq_getElem hlt, hsT _ hmem]
      rw [hterm]
      exact take_le _ i
  · rw [h.empty T hT]
    exact .nil

theorem Valid.written_length (h : H.Valid members τ) {q : N} {T i : Nat} (hack : H.acks q T i) :
    (H.written T i).length = i := by
  simp [written, (h.acked hack).2.1]

theorem Valid.elected_of_ack (h : H.Valid members τ) {q : N} {T i : Nat} (hack : H.acks q T i) :
    H.Elected T := by
  by_contra hT
  have := h.acked hack
  rw [h.empty T hT] at this
  simp only [List.length_nil] at this
  omega

/-! ## Leader completeness -/

/-- A chosen prefix is in the log of every election of a later term. -/
theorem Valid.chosenAt_le (h : H.Valid members τ) {T i : Nat} (hch : H.ChosenAt members T i)
    {e : Election N E} (he : e ∈ H.elections) (hlt : T < e.term) : H.written T i <+: e.log := by
  obtain ⟨Q, hQ, hacks⟩ := hch
  -- along the elections, oldest first: a voter that acknowledged has seen no earlier loss
  have hmain : ∀ es, H.Supported es → (∀ e ∈ es, e ∈ H.elections) →
      ∀ e ∈ es, T < e.term → H.written T i <+: e.log := by
    intro es
    induction es with
    | nil => simp
    | cons e older ih =>
      intro ⟨hsup, holder⟩ hsub e' he' hlt'
      have ih' := ih holder fun x hx => hsub x (List.mem_cons_of_mem _ hx)
      rcases List.mem_cons.mp he' with rfl | he'
      · obtain ⟨q, hqQ, hqV⟩ := hQ.inter (h.quorum e' (hsub e' List.mem_cons_self))
        rcases hsup q hqV T i (hacks q hqQ) hlt' with hle | ⟨e'', he'', hlt'', hnot⟩
        · exact hle
        · exact absurd (ih' e'' he'' hlt'') hnot
      · exact ih' e' he' hlt'
  exact hmain H.elections h.supported (fun _ h => h) e he hlt

theorem Valid.chosenBy_le (h : H.Valid members τ) {t : Nat} {π : List E}
    (hch : H.ChosenBy members t π) {T : Nat} (hT : H.Elected T) (hle : t ≤ T) :
    π <+: H.leaderLog T := by
  rcases hch with rfl | ⟨T', i, hT', hch, hπ⟩
  · exact List.nil_prefix
  · rcases (hT'.trans hle).eq_or_lt with rfl | hlt
    · exact hπ.trans (take_le _ i)
    · obtain ⟨e, he, rfl⟩ := hT
      exact hπ.trans ((h.chosenAt_le hch he hlt).trans (h.log_le he))

theorem Valid.elected_of_chosenAt (h : H.Valid members τ) {T i : Nat}
    (hch : H.ChosenAt members T i) : H.Elected T := by
  obtain ⟨Q, hQ, hacks⟩ := hch
  obtain ⟨q, hq⟩ := quorum_nonempty hQ
  exact h.elected_of_ack (hacks q hq)

/-- Chosen prefixes are prefixes of one log. -/
theorem Valid.chosen_comparable (h : H.Valid members τ) {π π' : List E}
    (hπ : H.Chosen members π) (hπ' : H.Chosen members π') : Comparable π π' := by
  obtain ⟨t, rfl | ⟨T, i, -, hch, hle⟩⟩ := hπ
  · exact .inl List.nil_prefix
  obtain ⟨t', rfl | ⟨T', i', -, hch', hle'⟩⟩ := hπ'
  · exact .inr List.nil_prefix
  rcases le_total T T' with hTT' | hTT'
  · exact .of_le (h.chosenBy_le (.inr ⟨T, i, hTT', hch, hle⟩) (h.elected_of_chosenAt hch') le_rfl)
      (hle'.trans (take_le _ i'))
  · exact .of_le (hle.trans (take_le _ i))
      (h.chosenBy_le (.inr ⟨T', i', hTT', hch', hle'⟩) (h.elected_of_chosenAt hch) le_rfl)

/-- What is acknowledged and not lost is comparable with every chosen prefix. -/
theorem Valid.acked_comparable (h : H.Valid members τ) {q : N} {T i : Nat} (hack : H.acks q T i)
    (hlost : ¬ H.Lost T i) {π : List E} (hπ : H.Chosen members π) :
    Comparable (H.written T i) π := by
  obtain ⟨t, rfl | ⟨T', i', -, hch, hle⟩⟩ := hπ
  · exact .inr List.nil_prefix
  rcases lt_or_ge T T' with hlt | hge
  · obtain ⟨e, he, rfl⟩ := h.elected_of_chosenAt hch
    have hlog : H.written T i <+: e.log := by
      by_contra hnot
      exact hlost ⟨e, he, hlt, hnot⟩
    exact .of_le (hlog.trans (h.log_le he)) (hle.trans (take_le _ i'))
  · exact .of_le (take_le _ i)
      (h.chosenBy_le (.inr ⟨T', i', hge, hch, hle⟩) (h.elected_of_ack hack) le_rfl)

theorem ChosenBy.of_le {t : Nat} {π π' : List E} (h : H.ChosenBy members t π') (hle : π <+: π') :
    H.ChosenBy members t π := by
  rcases h with rfl | ⟨T, i, hT, hch, hπ⟩
  · exact .inl (List.prefix_nil.mp hle)
  · exact .inr ⟨T, i, hT, hch, hle.trans hπ⟩

theorem ChosenBy.mono_term {t t' : Nat} {π : List E} (h : H.ChosenBy members t π)
    (hle : t ≤ t') : H.ChosenBy members t' π := by
  rcases h with rfl | ⟨T, i, hT, hch, hπ⟩
  · exact .inl rfl
  · exact .inr ⟨T, i, hT.trans hle, hch, hπ⟩

theorem ChosenBy.chosen {t : Nat} {π : List E} (h : H.ChosenBy members t π) :
    H.Chosen members π := ⟨t, h⟩

theorem Chosen.of_le {π π' : List E} (h : H.Chosen members π') (hle : π <+: π') :
    H.Chosen members π := by
  obtain ⟨t, ht⟩ := h
  exact ⟨t, ht.of_le hle⟩

/-- When all elections are before `T`, so is everything chosen. -/
theorem Valid.chosenBy_of_elections_lt (h : H.Valid members τ) {T : Nat}
    (hall : ∀ e ∈ H.elections, e.term < T) {π : List E} (hπ : H.Chosen members π) :
    H.ChosenBy members T π := by
  obtain ⟨t, rfl | ⟨T', i, -, hch, hle⟩⟩ := hπ
  · exact .inl rfl
  · obtain ⟨e, he, rfl⟩ := h.elected_of_chosenAt hch
    exact .inr ⟨e.term, i, (hall e he).le, hch, hle⟩

theorem Valid.chosen_good (h : H.Valid members τ) {π : List E} (hπ : H.Chosen members π) :
    Good τ H.leaderLog π := by
  obtain ⟨t, rfl | ⟨T', i, -, -, hle⟩⟩ := hπ
  · exact .nil
  · exact (h.leaderLog_good T').of_le (hle.trans (take_le _ i))

/-! ## The chosen sequence -/

/-- Entry `i` of the chosen sequence, as far as it has been chosen. -/
noncomputable def chosenEntry [Inhabited E] (H : History N E) (members : Finset N) (i : Nat) : E :=
  open Classical in
  if h : ∃ π : List E, H.Chosen members π ∧ i ≤ π.length then (h.choose[i - 1]?).getD default
  else default

theorem Valid.getElem?_chosen [Inhabited E] (h : H.Valid members τ) {π : List E}
    (hπ : H.Chosen members π) {i : Nat} (h0 : 0 < i) (hi : i ≤ π.length) :
    π[i - 1]? = some (H.chosenEntry members i) := by
  have hex : ∃ π : List E, H.Chosen members π ∧ i ≤ π.length := ⟨π, hπ, hi⟩
  obtain ⟨hchosen, hlen⟩ := hex.choose_spec
  have hlt : i - 1 < π.length := by omega
  have hlt' : i - 1 < hex.choose.length := by omega
  have heq : hex.choose[i - 1] = π[i - 1] := by
    rcases h.chosen_comparable hchosen hπ with hle | hle
    · exact hle.getElem hlt'
    · exact (hle.getElem hlt).symm
  rw [chosenEntry, dif_pos hex, List.getElem?_eq_getElem hlt', List.getElem?_eq_getElem hlt, heq,
    Option.getD_some]

/-- A chosen prefix is the beginning of the chosen sequence. -/
theorem Valid.eq_map_chosenEntry [Inhabited E] (h : H.Valid members τ) {π : List E}
    (hπ : H.Chosen members π) : π = (List.range' 1 π.length).map (H.chosenEntry members) := by
  refine List.ext_getElem? fun k => ?_
  by_cases hk : k < π.length
  · have := h.getElem?_chosen hπ (i := k + 1) (Nat.succ_pos k) hk
    rw [Nat.add_sub_cancel] at this
    rw [this]
    simp [hk, Nat.add_comm]
  · rw [List.getElem?_eq_none (by omega), List.getElem?_eq_none (by simpa using hk)]

/-! ## Growing histories -/

/-- `H'` continues `H`. -/
structure Extends (H H' : History N E) : Prop where
  elections : ∀ e ∈ H.elections, e ∈ H'.elections
  leaderLog : ∀ T, H.leaderLog T <+: H'.leaderLog T
  votes : ∀ ⦃q T c⦄, H.votes q T c → H'.votes q T c
  ballots : ∀ ⦃T c ℓ⦄, H.ballots T c = some ℓ → H'.ballots T c = some ℓ
  acks : ∀ ⦃q T i⦄, H.acks q T i → H'.acks q T i
  doomed : ∀ ⦃T c⦄, H.Doomed T c → H'.Doomed T c

namespace Extends

variable {H' H'' : History N E}

theorem refl (H : History N E) : Extends H H :=
  ⟨fun _ h => h, fun _ => List.prefix_refl _, fun _ _ _ h => h, fun _ _ _ h => h,
    fun _ _ _ h => h, fun _ _ h => h⟩

theorem trans (h : Extends H H') (h' : Extends H' H'') : Extends H H'' :=
  ⟨fun e he => h'.elections e (h.elections e he), fun T => (h.leaderLog T).trans (h'.leaderLog T),
    fun _ _ _ hv => h'.votes (h.votes hv), fun _ _ _ hb => h'.ballots (h.ballots hb),
    fun _ _ _ ha => h'.acks (h.acks ha), fun _ _ hd => h'.doomed (h.doomed hd)⟩

theorem elected (h : Extends H H') {T : Nat} (hT : H.Elected T) : H'.Elected T := by
  obtain ⟨e, he, rfl⟩ := hT
  exact ⟨e, h.elections e he, rfl⟩

theorem written_eq (h : Extends H H') {T i : Nat} (hi : i ≤ (H.leaderLog T).length) :
    H'.written T i = H.written T i := (take_eq_of_le (h.leaderLog T) hi).symm

theorem lost (h : Extends H H') {T i : Nat} (hi : i ≤ (H.leaderLog T).length)
    (hlost : H.Lost T i) : H'.Lost T i := by
  obtain ⟨e, he, hlt, hnot⟩ := hlost
  exact ⟨e, h.elections e he, hlt, by rwa [h.written_eq hi]⟩

theorem chosenAt (h : Extends H H') {T i : Nat} (hch : H.ChosenAt members T i) :
    H'.ChosenAt members T i := by
  obtain ⟨Q, hQ, hacks⟩ := hch
  exact ⟨Q, hQ, fun q hq => h.acks (hacks q hq)⟩

theorem chosenBy (h : Extends H H') (hH : H.Valid members τ) {t : Nat} {π : List E}
    (hch : H.ChosenBy members t π) : H'.ChosenBy members t π := by
  rcases hch with rfl | ⟨T, i, hT, hch, hπ⟩
  · exact .inl rfl
  · refine .inr ⟨T, i, hT, h.chosenAt hch, ?_⟩
    obtain ⟨Q, hQ, hacks⟩ := hch
    obtain ⟨q, hq⟩ := Valid.quorum_nonempty hQ
    rwa [h.written_eq (hH.acked (hacks q hq)).2.1]

theorem chosen (h : Extends H H') (hH : H.Valid members τ) {π : List E}
    (hch : H.Chosen members π) : H'.Chosen members π := by
  obtain ⟨t, ht⟩ := hch
  exact ⟨t, h.chosenBy hH ht⟩

theorem supported (h : Extends H H') (hH : H.Valid members τ)
    (hacks : ∀ ⦃q T i⦄, H'.acks q T i → H.acks q T i ∨
      ∀ T' c, H.votes q T' c → T' ≤ T)
    {es : List (Election N E)} (hes : ∀ e ∈ es, e ∈ H.elections) (hsup : H.Supported es) :
    H'.Supported es := by
  induction es with
  | nil => trivial
  | cons e older ih =>
    refine ⟨fun q hq T i hack hlt => ?_, ih (fun x hx => hes x (List.mem_cons_of_mem _ hx)) hsup.2⟩
    rcases hacks hack with hold | hnew
    · rw [h.written_eq (hH.acked hold).2.1]
      exact hsup.1 q hq T i hold hlt
    · have he := hes e List.mem_cons_self
      have := hnew _ _ (hH.voted e he q hq)
      omega

end Extends

/-! ### Campaigns -/

/-- Candidate `c` starts a campaign for term `T` with the log `ℓ`. -/
def campaign [DecidableEq N] (H : History N E) (T : Nat) (c : N) (ℓ : List E) : History N E :=
  { H with ballots := fun T' c' => if T' = T ∧ c' = c then some ℓ else H.ballots T' c' }

theorem extends_campaign [DecidableEq N] {T : Nat} {c : N} {ℓ : List E}
    (hnone : H.ballots T c = none) : Extends H (H.campaign T c ℓ) where
  elections _ h := h
  leaderLog _ := List.prefix_refl _
  votes _ _ _ h := h
  acks _ _ _ h := h
  doomed _ _ h := h
  ballots T' c' ℓ' h := by
    have hne : ¬ (T' = T ∧ c' = c) := by
      rintro ⟨rfl, rfl⟩
      rw [hnone] at h
      cases h
    simp only [campaign, if_neg hne]
    exact h

/-- An entry of a good log was written by an elected leader. -/
theorem Valid.elected_of_mem (h : H.Valid members τ) {ℓ : List E} (hgood : Good τ H.leaderLog ℓ)
    {x : E} (hx : x ∈ ℓ) : H.Elected (τ x) := by
  obtain ⟨i, hi, rfl⟩ := List.mem_iff_getElem.mp hx
  by_contra hT
  have hp := hgood (i + 1) i.succ_pos hi
  rw [termAt, List.getElem?_eq_getElem hi, Option.map_some, Option.getD_some, h.empty _ hT] at hp
  have := hp.length_le
  simp only [List.length_take, List.length_nil] at this
  omega

theorem Valid.campaign [DecidableEq N] (h : H.Valid members τ) {T : Nat} {c : N} {ℓ : List E}
    (hnone : H.ballots T c = none) (hgood : Good τ H.leaderLog ℓ) :
    (H.campaign T c ℓ).Valid members τ where
  unique := h.unique
  quorum := h.quorum
  voted := h.voted
  ballot e he := (extends_campaign hnone).ballots (h.ballot e he)
  distinct := h.distinct
  older := h.older
  leaderLog := h.leaderLog
  empty := h.empty
  acked := h.acked
  supported := (extends_campaign hnone).supported h (fun _ _ _ ha => .inl ha) (fun _ he => he)
    h.supported
  votedKeeps q T' c' hv := by
    obtain ⟨ℓ', hℓ', hkeeps⟩ := h.votedKeeps hv
    exact ⟨ℓ', (extends_campaign hnone).ballots hℓ', hkeeps⟩
  ballotGood T' c' ℓ' hb := by
    by_cases hnew : T' = T ∧ c' = c
    · obtain ⟨rfl, rfl⟩ := hnew
      obtain rfl : ℓ = ℓ' := by simpa [History.campaign] using hb
      refine ⟨hgood, ?_⟩
      -- a leader of this or a later term has voters that will not vote for this campaign
      by_cases hlate : ∃ e ∈ H.elections, T' ≤ e.term
      · obtain ⟨e, he, hle⟩ := hlate
        refine .inr ⟨e, he, hle, fun q _ hv => ?_⟩
        obtain ⟨ℓ', hℓ', -⟩ := h.votedKeeps hv
        rw [hnone] at hℓ'
        cases hℓ'
      · refine .inl fun x hx => ?_
        obtain ⟨e, he, hterm⟩ := h.elected_of_mem hgood hx
        by_contra hge
        exact hlate ⟨e, he, by omega⟩
    · simp only [History.campaign, if_neg hnew] at hb
      exact h.ballotGood hb

/-! ### Votes -/

/-- The votes become `V`. -/
def withVotes (H : History N E) (V : Votes N) : History N E := { H with votes := V }

/-- A new vote is for a campaign whose log has what its voter acknowledged, in a term no
earlier than those of the voter's other votes. -/
def MayAdd (H : History N E) (V : Votes N) : Prop :=
  ∀ ⦃q T c⦄, V q T c → H.votes q T c ∨ (∀ T' a, H.votes q T' a → T' ≤ T) ∧
    ∃ ℓ, H.ballots T c = some ℓ ∧
      ∀ T' i, H.acks q T' i → T' < T → H.written T' i <+: ℓ ∨ H.Lost T' i

theorem extends_withVotes (h : H.Valid members τ) {V : Votes N}
    (hV : ∀ ⦃q T c⦄, H.votes q T c → V q T c) (hunique : V.Unique) (hnew : H.MayAdd V) :
    Extends H (H.withVotes V) where
  elections _ h := h
  leaderLog _ := List.prefix_refl _
  votes := hV
  ballots _ _ _ h := h
  acks _ _ _ h := h
  doomed T c := by
    rintro ⟨e, he, hle, hno⟩
    refine ⟨e, he, hle, fun q hq hv => ?_⟩
    rcases hnew hv with hold | ⟨hlast, -⟩
    · exact hno q hq hold
    · -- a voter of `e` votes no earlier than in the term of `e`, and there only for its leader
      have hvote := h.voted e he q hq
      have hterm : e.term = T := le_antisymm (hlast _ _ hvote) hle
      have hleader : e.leader = c := hunique (hV hvote) (hterm ▸ hv)
      exact hno q hq (hterm ▸ hleader ▸ hvote)

theorem Valid.withVotes (h : H.Valid members τ) {V : Votes N}
    (hV : ∀ ⦃q T c⦄, H.votes q T c → V q T c) (hunique : V.Unique) (hnew : H.MayAdd V) :
    (H.withVotes V).Valid members τ where
  unique := hunique
  quorum := h.quorum
  voted e he q hq := hV (h.voted e he q hq)
  ballot := h.ballot
  distinct := h.distinct
  older := h.older
  leaderLog := h.leaderLog
  empty := h.empty
  acked := h.acked
  supported := (extends_withVotes h hV hunique hnew).supported h (fun _ _ _ ha => .inl ha)
    (fun _ he => he) h.supported
  votedKeeps q T c hv := by
    rcases hnew hv with hold | ⟨-, hkeeps⟩
    · exact h.votedKeeps hold
    · exact hkeeps
  ballotGood T c ℓ hb := (h.ballotGood hb).imp id fun hcase =>
    hcase.imp id fun hd => (extends_withVotes h hV hunique hnew).doomed hd

/-- A candidate's log that the voter's check calls up to date has what the voter's log has
of an acknowledged prefix, unless that is lost. -/
theorem Valid.upToDate_keeps (h : H.Valid members τ) {ℓ ℓ' : List E}
    (hℓ : Good τ H.leaderLog ℓ) (hℓ' : Good τ H.leaderLog ℓ') {q : N} {T i : Nat}
    (hack : H.acks q T i) (hle : H.written T i <+: ℓ)
    (hup : termAt τ ℓ ℓ.length < termAt τ ℓ' ℓ'.length ∨
      termAt τ ℓ ℓ.length = termAt τ ℓ' ℓ'.length ∧ ℓ.length ≤ ℓ'.length) :
    H.written T i <+: ℓ' ∨ H.Lost T i := by
  obtain ⟨h0, hi, hterm⟩ := h.acked hack
  have hlen := h.written_length hack
  have hiℓ : i ≤ ℓ.length := hlen ▸ hle.length_le
  have hterm' : termAt τ ℓ i = T := by
    rw [← termAt_of_le τ hle hlen.ge, written, termAt_take τ le_rfl, hterm]
  have hlast : T ≤ termAt τ ℓ ℓ.length := hterm' ▸ hℓ.termAt_le h.term_le hiℓ le_rfl
  have hpos : 0 < ℓ'.length := by
    by_contra hzero
    have hnil : ℓ'.length = 0 := by omega
    rw [hnil, termAt_zero] at hup
    omega
  have hown : ℓ' <+: H.leaderLog (termAt τ ℓ' ℓ'.length) := by
    simpa using hℓ' ℓ'.length hpos le_rfl
  by_cases heq : termAt τ ℓ' ℓ'.length = T
  · -- both logs end in the term of the acknowledgement
    refine .inl ?_
    rw [heq] at hown
    refine List.prefix_of_prefix_length_le (take_le _ i) hown ?_
    rw [hlen]
    omega
  · -- the candidate's last entry comes from a later leader, who has the prefix or lost it
    obtain ⟨x, hx, hxT⟩ := exists_mem_of_termAt τ hpos (le_refl ℓ'.length)
    obtain ⟨e, he, heT⟩ := h.elected_of_mem hℓ' hx
    by_cases hpre : H.written T i <+: e.log
    · refine .inl (hpre.trans ?_)
      rw [← hxT, ← heT] at hown
      refine List.prefix_of_prefix_length_le (h.log_le he) hown ?_
      by_contra hlt
      have hle' : ℓ' <+: e.log :=
        List.prefix_of_prefix_length_le hown (h.log_le he) (not_le.mp hlt).le
      have := h.older e he x (hle'.subset hx)
      omega
    · exact .inr ⟨e, he, by omega, hpre⟩

/-! ### Elections -/

/-- Candidate `c` wins term `T`. -/
def elect (H : History N E) (T : Nat) (c : N) (voters : Finset N) (ℓ : List E) : History N E :=
  { H with
    elections := ⟨T, c, voters, ℓ⟩ :: H.elections
    leaderLog := Function.update H.leaderLog T ℓ }

/-- A term is won once. -/
theorem Valid.not_elected (h : H.Valid members τ) {T : Nat} {c : N} {voters : Finset N}
    (hquorum : IsQuorum members voters) (hvotes : ∀ q ∈ voters, H.votes q T c)
    (hfirst : ∀ e ∈ H.elections, e.term = T → e.leader ≠ c) : ¬ H.Elected T := by
  rintro ⟨e, he, rfl⟩
  obtain ⟨q, hq, hq'⟩ := (h.quorum e he).inter hquorum
  exact hfirst e he rfl (h.unique (h.voted e he q hq) (hvotes q hq'))

theorem Valid.not_doomed (h : H.Valid members τ) {T : Nat} {c : N} {voters : Finset N}
    (hquorum : IsQuorum members voters) (hvotes : ∀ q ∈ voters, H.votes q T c) :
    ¬ H.Doomed T c := by
  rintro ⟨e, he, -, hno⟩
  obtain ⟨q, hq, hq'⟩ := (h.quorum e he).inter hquorum
  exact hno q hq (hvotes q hq')

theorem extends_elect (h : H.Valid members τ) {T : Nat} (c : N) (voters : Finset N)
    (ℓ : List E) (hT : ¬ H.Elected T) : Extends H (H.elect T c voters ℓ) where
  elections e he := List.mem_cons_of_mem _ he
  leaderLog T' := by
    by_cases hTT : T' = T
    · subst hTT
      simp [h.empty T' hT]
    · simp [elect, Function.update_of_ne hTT]
  votes _ _ _ h := h
  ballots _ _ _ h := h
  acks _ _ _ h := h
  doomed T' c' := by
    rintro ⟨e, he, hle, hno⟩
    exact ⟨e, List.mem_cons_of_mem _ he, hle, hno⟩

theorem Valid.elect (h : H.Valid members τ) {T : Nat} {c : N} {voters : Finset N} {ℓ : List E}
    (hquorum : IsQuorum members voters) (hvotes : ∀ q ∈ voters, H.votes q T c)
    (hfirst : ∀ e ∈ H.elections, e.term = T → e.leader ≠ c)
    (hballot : H.ballots T c = some ℓ) : (H.elect T c voters ℓ).Valid members τ := by
  have hT := h.not_elected hquorum hvotes hfirst
  have hext := extends_elect h c voters ℓ hT
  have hterm := (h.ballotGood hballot).2.resolve_right (h.not_doomed hquorum hvotes)
  have hne : ∀ e ∈ H.elections, e.term ≠ T := fun e he heq => hT ⟨e, he, heq⟩
  refine ⟨h.unique, ?_, ?_, ?_, ?_, ?_, ?_, ?_, ?_, ⟨?_, ?_⟩, ?_, ?_⟩
  · exact List.forall_mem_cons.mpr ⟨hquorum, h.quorum⟩
  · exact List.forall_mem_cons.mpr ⟨hvotes, h.voted⟩
  · exact List.forall_mem_cons.mpr ⟨hballot, h.ballot⟩
  · intro e he e' he' heq
    rcases List.mem_cons.mp he with rfl | he <;> rcases List.mem_cons.mp he' with rfl | he'
    · rfl
    · exact absurd heq.symm (hne e' he')
    · exact absurd heq (hne e he)
    · exact h.distinct e he e' he' heq
  · exact List.forall_mem_cons.mpr ⟨hterm, h.older⟩
  · refine List.forall_mem_cons.mpr ⟨⟨[], by simp [History.elect], by simp⟩, fun e he => ?_⟩
    simpa [History.elect, Function.update_of_ne (hne e he)] using h.leaderLog e he
  · intro T' hT'
    have hTT : T' ≠ T := fun heq => hT' ⟨_, List.mem_cons_self, heq.symm⟩
    simp only [History.elect, Function.update_of_ne hTT]
    exact h.empty T' fun hold => hT' (hext.elected hold)
  · intro q T' i hack
    have hTT : T' ≠ T := by
      rintro rfl
      exact hT (h.elected_of_ack hack)
    simp only [History.elect, Function.update_of_ne hTT]
    exact h.acked hack
  · intro q hq T' i hack hlt
    rw [hext.written_eq (h.acked hack).2.1]
    obtain ⟨ℓ', hℓ', hkeeps⟩ := h.votedKeeps (hvotes q hq)
    rw [hballot] at hℓ'
    cases hℓ'
    exact hkeeps T' i hack hlt
  · exact hext.supported h (fun _ _ _ ha => .inl ha) (fun _ he => he) h.supported
  · intro q T' c' hv
    obtain ⟨ℓ', hℓ', hkeeps⟩ := h.votedKeeps hv
    refine ⟨ℓ', hℓ', fun T'' i hack hlt => ?_⟩
    rw [hext.written_eq (h.acked hack).2.1]
    exact (hkeeps T'' i hack hlt).imp id (hext.lost (h.acked hack).2.1)
  · intro T' c' ℓ' hb
    obtain ⟨hgood', hcase⟩ := h.ballotGood hb
    exact ⟨hgood'.mono hext.leaderLog, hcase.imp id fun hd => hext.doomed hd⟩

/-! ### The leader's log -/

/-- The leader of `T` writes `x`. -/
def append (H : History N E) (T : Nat) (x : E) : History N E :=
  { H with leaderLog := Function.update H.leaderLog T (H.leaderLog T ++ [x]) }

theorem extends_append {T : Nat} {x : E} : Extends H (H.append T x) where
  elections _ h := h
  leaderLog T' := by
    by_cases hTT : T' = T
    · subst hTT
      simp [append]
    · simp [append, Function.update_of_ne hTT]
  votes _ _ _ h := h
  ballots _ _ _ h := h
  acks _ _ _ h := h
  doomed _ _ h := h

theorem Valid.append (h : H.Valid members τ) {T : Nat} {x : E} (hT : H.Elected T)
    (hx : τ x = T) : (H.append T x).Valid members τ where
  unique := h.unique
  quorum := h.quorum
  voted := h.voted
  ballot := h.ballot
  distinct := h.distinct
  older := h.older
  leaderLog e he := by
    obtain ⟨s, hs, hsT⟩ := h.leaderLog e he
    by_cases heT : e.term = T
    · refine ⟨s ++ [x], ?_, ?_⟩
      · rw [heT] at hs
        simp [History.append, heT, hs]
      · intro y hy
        rcases List.mem_append.mp hy with hy | hy
        · exact hsT y hy
        · rw [List.mem_singleton.mp hy, hx, heT]
    · exact ⟨s, by simpa [History.append, Function.update_of_ne heT] using hs, hsT⟩
  empty T' hT' := by
    have hTT : T' ≠ T := by
      rintro rfl
      exact hT' hT
    simp only [History.append, Function.update_of_ne hTT]
    exact h.empty T' hT'
  acked q T' i hack := by
    obtain ⟨h0, hi, hterm⟩ := h.acked hack
    have hle := (extends_append (H := H) (T := T) (x := x)).leaderLog T'
    exact ⟨h0, hi.trans hle.length_le, by rw [← termAt_of_le τ hle hi, hterm]⟩
  supported := extends_append.supported h (fun _ _ _ ha => .inl ha) (fun _ he => he) h.supported
  votedKeeps q T' c hv := by
    obtain ⟨ℓ, hℓ, hkeeps⟩ := h.votedKeeps hv
    refine ⟨ℓ, hℓ, fun T'' i hack hlt => ?_⟩
    rw [extends_append.written_eq (h.acked hack).2.1]
    exact (hkeeps T'' i hack hlt).imp id (extends_append.lost (h.acked hack).2.1)
  ballotGood T' c ℓ hb := by
    obtain ⟨hgood, hcase⟩ := h.ballotGood hb
    exact ⟨hgood.mono extends_append.leaderLog, hcase⟩

/-! ### Acknowledgements -/

/-- The acknowledgements become `A`. -/
def withAcks (H : History N E) (A : N → Nat → Nat → Prop) : History N E := { H with acks := A }

theorem extends_withAcks {A : N → Nat → Nat → Prop} (hA : ∀ ⦃q T i⦄, H.acks q T i → A q T i) :
    Extends H (H.withAcks A) :=
  ⟨fun _ h => h, fun _ => List.prefix_refl _, fun _ _ _ h => h, fun _ _ _ h => h, hA,
    fun _ _ h => h⟩

/-- A new acknowledgement is not in a term before a vote of its member. -/
theorem Valid.withAcks (h : H.Valid members τ) {A : N → Nat → Nat → Prop}
    (hA : ∀ ⦃q T i⦄, H.acks q T i → A q T i)
    (hnew : ∀ ⦃q T i⦄, A q T i → H.acks q T i ∨ (∀ T' c, H.votes q T' c → T' ≤ T) ∧
      0 < i ∧ i ≤ (H.leaderLog T).length ∧ termAt τ (H.leaderLog T) i = T) :
    (H.withAcks A).Valid members τ where
  unique := h.unique
  quorum := h.quorum
  voted := h.voted
  ballot := h.ballot
  distinct := h.distinct
  older := h.older
  leaderLog := h.leaderLog
  empty := h.empty
  acked q T i hack := by
    rcases hnew hack with hold | ⟨-, hi⟩
    · exact h.acked hold
    · exact hi
  supported := (extends_withAcks hA).supported h (fun _ _ _ ha => (hnew ha).imp id And.left)
    (fun _ he => he) h.supported
  votedKeeps q T c hv := by
    obtain ⟨ℓ, hℓ, hkeeps⟩ := h.votedKeeps hv
    refine ⟨ℓ, hℓ, fun T' i hack hlt => ?_⟩
    rcases hnew hack with hold | ⟨hlast, -⟩
    · exact hkeeps T' i hold hlt
    · have := hlast _ _ hv
      omega
  ballotGood := h.ballotGood

end History

end Replication
