import Mathlib.Data.Finset.Card

/-!
# Votes and majorities

A vote is cast by a voter in a term for a candidate. When a voter casts at most one vote a
term, at most one candidate has a majority in a term.
-/

namespace Voting

variable {N : Type*}

/-- `V q T a` says that `q` has voted for `a` in term `T`. -/
abbrev Votes (N : Type*) := N → Nat → N → Prop

def Votes.Unique (V : Votes N) : Prop := ∀ ⦃q T a b⦄, V q T a → V q T b → a = b

/-- A majority of the members. -/
def IsQuorum (members Q : Finset N) : Prop := Q ⊆ members ∧ members.card / 2 + 1 ≤ Q.card

theorem IsQuorum.inter {members Q R : Finset N} (hQ : IsQuorum members Q)
    (hR : IsQuorum members R) : ∃ q, q ∈ Q ∧ q ∈ R := by
  have hlt : members.card < Q.card + R.card := by
    have := hQ.2
    have := hR.2
    omega
  classical
  obtain ⟨q, hq⟩ := Finset.inter_nonempty_of_card_lt_card_add_card hQ.1 hR.1 hlt
  exact ⟨q, Finset.mem_inter.mp hq⟩

/-- A majority has voted for `a`. -/
def Votes.Won (V : Votes N) (members : Finset N) (T : Nat) (a : N) : Prop :=
  ∃ Q, IsQuorum members Q ∧ ∀ q ∈ Q, V q T a

theorem Votes.Won.mono {V W : Votes N} {members : Finset N} {T : Nat} {a : N}
    (h : V.Won members T a) (hVW : ∀ q, V q T a → W q T a) : W.Won members T a := by
  obtain ⟨Q, hQ, hV⟩ := h
  exact ⟨Q, hQ, fun q hq => hVW q (hV q hq)⟩

theorem Votes.Won.unique {V : Votes N} {members : Finset N} {T : Nat} {a b : N}
    (hV : V.Unique) (ha : V.Won members T a) (hb : V.Won members T b) : a = b := by
  obtain ⟨Q, hQ, hQa⟩ := ha
  obtain ⟨R, hR, hRb⟩ := hb
  obtain ⟨q, hqQ, hqR⟩ := hQ.inter hR
  exact hV (hQa q hqQ) (hRb q hqR)

/-! ## The ballot of a voter

A voter holds a term and the candidate it has voted for in that term. It may move to a later
term with no vote, and vote when it has none. -/

/-- A move of term and vote that casts no vote; `none` is the absence of a vote. -/
def Later (none : N) (b b' : Nat × N) : Prop :=
  b' = b ∨ b.1 < b'.1 ∧ b'.2 = none

namespace Later

variable {x : N} {b b' b'' : Nat × N}

theorem refl : Later x b b := .inl rfl

theorem trans (h : Later x b b') (h' : Later x b' b'') : Later x b b'' := by
  rcases h' with rfl | ⟨hlt, hx⟩
  · exact h
  · rcases h with rfl | ⟨hlt', -⟩
    · exact .inr ⟨hlt, hx⟩
    · exact .inr ⟨hlt'.trans hlt, hx⟩

theorem fst_le (h : Later x b b') : b.1 ≤ b'.1 := by
  rcases h with rfl | ⟨hlt, -⟩
  · exact le_rfl
  · exact hlt.le

/-- A vote of the later ballot is a vote of the earlier one. -/
theorem eq_of_ne (h : Later x b b') (hne : b'.2 ≠ x) : b' = b := by
  rcases h with rfl | ⟨-, hx⟩
  · rfl
  · exact absurd hx hne

end Later

/-- The ballot `b` accounts for the vote for `a` in term `T`: it is that vote, or belongs to
a later term. -/
def Covers (b : Nat × N) (T : Nat) (a : N) : Prop := T < b.1 ∨ b = (T, a)

/-- From ballot `b` the voter may vote for `a` in term `T`. -/
def MayVote (none : N) (b : Nat × N) (T : Nat) (a : N) : Prop :=
  b.1 < T ∨ b.1 = T ∧ (b.2 = none ∨ b.2 = a)

/-- While the ballot in memory moves from `b` to `b'`, the durable one stays or becomes a
ballot held on the way. -/
def Follows (none : N) (durable durable' : Option (Nat × N)) (b b' : Nat × N) : Prop :=
  durable' = durable ∨ ∃ d, durable' = some d ∧ Later none b d ∧ Later none d b'

/-- The votes after voter `q` has made `durable` its durable ballot. -/
def Votes.record (V : Votes N) (none : N) (q : N) (durable : Option (Nat × N)) : Votes N :=
  fun q' T a => V q' T a ∨ q' = q ∧ durable = some (T, a) ∧ a ≠ none

theorem Votes.le_record (V : Votes N) (x q : N) (durable : Option (Nat × N)) {q' a : N} {T : Nat}
    (h : V q' T a) : V.record x q durable q' T a := .inl h

/-- The durable ballot of `q` accounts for all of its votes, and is itself one of them. -/
structure Accounted (V : Votes N) (none : N) (q : N) (durable : Option (Nat × N)) : Prop where
  ne : ∀ ⦃T a⦄, V q T a → a ≠ none
  covers : ∀ ⦃T a⦄, V q T a → ∃ d, durable = some d ∧ Covers d T a
  recorded : ∀ ⦃T a⦄, durable = some (T, a) → a ≠ none → V q T a

/-- The ballot `b` in memory is not behind the durable one. -/
structure Holds (V : Votes N) (none : N) (q : N) (durable : Option (Nat × N)) (b : Nat × N) :
    Prop where
  ahead : ∀ ⦃d⦄, durable = some d → d.1 < b.1 ∨ d.1 = b.1 ∧ (d.2 = none ∨ d = b)
  recorded : b.2 ≠ none → V q b.1 b.2

section Voter

variable {V : Votes N} {x q : N} {durable durable' : Option (Nat × N)} {b b' : Nat × N}

theorem Accounted.covers_of_holds (ha : Accounted V x q durable) (hb : Holds V x q durable b)
    {T : Nat} {a : N} (h : V q T a) : Covers b T a := by
  obtain ⟨d, hd, hcov⟩ := ha.covers h
  rcases hb.ahead hd with hlt | ⟨heq, hx | rfl⟩
  · rcases hcov with hT | rfl
    · exact .inl (hT.trans hlt)
    · exact .inl hlt
  · rcases hcov with hT | rfl
    · exact .inl (heq ▸ hT)
    · exact absurd hx (ha.ne h)
  · exact hcov

/-- A move that casts no vote adds none. -/
theorem Accounted.record_eq (hb : Holds V x q durable b) (ha : Accounted V x q durable)
    (hdur : Follows x durable durable' b b') :
    V.record x q durable' = V := by
  funext q' T a
  refine propext ⟨?_, .inl⟩
  rintro (h | ⟨rfl, hd, hne⟩)
  · exact h
  · rcases hdur with rfl | ⟨d, rfl, hfrom, -⟩
    · exact ha.recorded hd hne
    · cases hd
      have heq := hfrom.eq_of_ne hne
      rw [← heq] at hb
      exact hb.recorded hne

theorem Accounted.keep (hb : Holds V x q durable b) (ha : Accounted V x q durable)
    (hdur : Follows x durable durable' b b') :
    Accounted V x q durable' := by
  rcases hdur with rfl | ⟨d, rfl, hfrom, -⟩
  · exact ha
  · refine ⟨ha.ne, fun T a h => ⟨d, rfl, ?_⟩, fun T a hd hne => ?_⟩
    · rcases hfrom with rfl | ⟨hlt, -⟩
      · exact ha.covers_of_holds hb h
      · rcases ha.covers_of_holds hb h with hT | rfl
        · exact .inl (hT.trans hlt)
        · exact .inl hlt
    · cases hd
      have heq := hfrom.eq_of_ne hne
      rw [← heq] at hb
      exact hb.recorded hne

theorem Holds.keep (hb : Holds V x q durable b) (hlater : Later x b b')
    (hdur : Follows x durable durable' b b') :
    Holds V x q durable' b' := by
  refine ⟨fun d hd => ?_, fun hne => ?_⟩
  · rcases hdur with rfl | ⟨d', rfl, -, hto⟩
    · rcases hlater with rfl | ⟨hlt, -⟩
      · exact hb.ahead hd
      · rcases hb.ahead hd with h | ⟨h, -⟩
        · exact .inl (h.trans hlt)
        · exact .inl (h ▸ hlt)
    · cases hd
      rcases hto with rfl | ⟨hlt, -⟩
      · exact .inr ⟨rfl, .inr rfl⟩
      · exact .inl hlt
  · have heq := hlater.eq_of_ne hne
    subst heq
    exact hb.recorded hne

/-- Every vote of `q` in term `T` is for `a` already, when `q` may vote for `a` then. -/
theorem Accounted.eq_of_mayVote (hb : Holds V x q durable b) (ha : Accounted V x q durable)
    {T : Nat} {a a' : N} (hmay : MayVote x b T a) (h : V q T a') : a' = a := by
  rcases ha.covers_of_holds hb h with hlt | rfl
  · rcases hmay with h' | ⟨h', -⟩ <;> omega
  · rcases hmay with h' | ⟨-, h' | h'⟩
    · exact absurd h' (lt_irrefl _)
    · exact absurd h' (ha.ne h)
    · exact h'

theorem Accounted.cast (hb : Holds V x q durable b) (ha : Accounted V x q durable) {T : Nat}
    {a : N} (hmay : MayVote x b T a) :
    Accounted (V.record x q (some (T, a))) x q (some (T, a)) := by
  refine ⟨?_, ?_, fun T' a' h hx => .inr ⟨rfl, h, hx⟩⟩
  · rintro T' a' (h | ⟨-, -, h⟩)
    · exact ha.ne h
    · exact h
  · rintro T' a' (h | ⟨-, h, -⟩)
    · refine ⟨_, rfl, ?_⟩
      by_cases hT : T' = T
      · subst hT
        exact .inr (by rw [ha.eq_of_mayVote hb hmay h])
      · have hcov := ha.covers_of_holds hb h
        refine .inl ?_
        rcases hcov with hlt | rfl <;> rcases hmay with h' | ⟨h', -⟩ <;> simp only at * <;> omega
    · exact ⟨_, rfl, .inr (Option.some_inj.mp h)⟩

theorem Holds.cast {T : Nat} {a : N} :
    Holds (V.record x q (some (T, a))) x q (some (T, a)) (T, a) :=
  ⟨fun d hd => .inr ⟨by cases hd; rfl, .inr (by cases hd; rfl)⟩, fun hne => .inr ⟨rfl, rfl, hne⟩⟩

theorem Votes.Unique.cast (hV : V.Unique) (hb : Holds V x q durable b)
    (ha : Accounted V x q durable) {T : Nat} {a : N} (hmay : MayVote x b T a) :
    (V.record x q (some (T, a))).Unique := by
  rintro q' T' a₁ a₂ (h₁ | ⟨rfl, h₁, -⟩) (h₂ | ⟨hq, h₂, -⟩)
  · exact hV h₁ h₂
  · subst hq
    cases h₂
    exact ha.eq_of_mayVote hb hmay h₁
  · cases h₁
    exact (ha.eq_of_mayVote hb hmay h₂).symm
  · cases h₁
    cases h₂
    rfl

/-- After a crash the voter continues from its durable ballot. -/
theorem Holds.recover (ha : Accounted V x q durable) :
    Holds V x q durable (durable.getD (0, x)) := by
  cases durable with
  | none => exact ⟨by simp, fun h => absurd rfl h⟩
  | some d => exact ⟨fun d' hd => .inr (by cases hd; exact ⟨rfl, .inr rfl⟩), ha.recorded rfl⟩

end Voter

end Voting
