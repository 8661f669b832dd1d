import Mathlib.Logic.Function.Iterate
import Mathlib.Data.Nat.Init

/-!
# Rounds that come to an end

A round is a function on states. What holds after some number of rounds is shown with a rank that
every round lowers, as long as an invariant holds.
-/

namespace Rounds

variable {S : Type*} {round : S → S} {P I : S → Prop}

/-- After finitely many rounds `P` holds. -/
def Reaches (round : S → S) (P : S → Prop) (s : S) : Prop := ∃ k, P (round^[k] s)

theorem Reaches.now {s : S} (h : P s) : Reaches round P s := ⟨0, h⟩

theorem Reaches.next {s : S} (h : Reaches round P (round s)) : Reaches round P s := by
  obtain ⟨k, hk⟩ := h
  exact ⟨k + 1, hk⟩

/-- A round reaches the goal, or keeps the invariant and lowers the rank. -/
theorem Reaches.of_rank (rank : S → Nat)
    (h : ∀ s, I s → P (round s) ∨ I (round s) ∧ rank (round s) < rank s) {s : S} (hs : I s) :
    Reaches round P s := by
  induction hrank : rank s using Nat.strong_induction_on generalizing s with
  | h r ih =>
    subst hrank
    rcases h s hs with hdone | ⟨hinv, hlt⟩
    · exact .next (.now hdone)
    · exact .next (ih _ hlt hinv rfl)

/-- Until the goal is reached no round raises the rank, and the rounds of one kind lower it. When
there is always another round of that kind, the goal is reached for good. -/
theorem eventually_of_fair (run : Nat → S) {helps : Nat → Prop} (rank : S → Nat)
    (hle : ∀ n, rank (run (n + 1)) ≤ rank (run n) ∨ P (run (n + 1)))
    (hlt : ∀ n, helps n → rank (run (n + 1)) < rank (run n) ∨ P (run (n + 1)))
    (hstay : ∀ n, P (run n) → P (run (n + 1))) (hfair : ∀ n, ∃ k, n ≤ k ∧ helps k) :
    ∃ n, ∀ k, n ≤ k → P (run k) := by
  have hreached : ∀ r n, rank (run n) = r → ∃ k, P (run k) := by
    intro r
    induction r using Nat.strong_induction_on with
    | h r ih =>
      intro n hn
      by_contra hnever
      rw [not_exists] at hnever
      have hmono : ∀ k, n ≤ k → rank (run k) ≤ r := by
        intro k hk
        induction k, hk using Nat.le_induction with
        | base => exact Nat.le_of_eq hn
        | succ k _ ihk => exact Nat.le_trans ((hle k).resolve_right (hnever _)) ihk
      obtain ⟨k, hk, hhelps⟩ := hfair n
      have hlower := (hlt k hhelps).resolve_right (hnever _)
      obtain ⟨j, hj⟩ :=
        ih (rank (run (k + 1))) (Nat.lt_of_lt_of_le hlower (hmono k hk)) (k + 1) rfl
      exact hnever j hj
  obtain ⟨n, hn⟩ := hreached _ 0 rfl
  refine ⟨n, fun k hk => ?_⟩
  induction k, hk using Nat.le_induction with
  | base => exact hn
  | succ k _ ih => exact hstay k ih

end Rounds
