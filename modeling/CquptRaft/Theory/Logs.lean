import Mathlib.Data.List.Infix

/-!
# Logs as lists of entries

A log is a list of entries, each with a term; index `i` is the end of the prefix of length
`i`. `L` gives for every term the log of its leader. A log is `Good` when every prefix of it
is a prefix of the log of the leader that wrote its last entry. Two good logs that have an
entry of the same term at the same index agree up to there.
-/

namespace Replication

variable {E : Type*} (τ : E → Nat)

/-- The term of the entry at index `i`; `0` when there is none. -/
def termAt (ℓ : List E) : Nat → Nat
  | 0 => 0
  | i + 1 => (ℓ[i]?.map τ).getD 0

@[simp] theorem termAt_zero (ℓ : List E) : termAt τ ℓ 0 = 0 := rfl

theorem termAt_take {ℓ : List E} {i j : Nat} (h : i ≤ j) :
    termAt τ (ℓ.take j) i = termAt τ ℓ i := by
  cases i with
  | zero => rfl
  | succ i => simp only [termAt, List.getElem?_take_of_lt (Nat.lt_of_succ_le h)]

theorem take_le (ℓ : List E) (i : Nat) : ℓ.take i <+: ℓ := List.take_prefix i ℓ

theorem take_eq_of_le {ℓ ℓ' : List E} (h : ℓ <+: ℓ') {i : Nat} (hi : i ≤ ℓ.length) :
    ℓ.take i = ℓ'.take i := by
  rw [List.prefix_iff_eq_take.mp h, List.take_take, min_eq_left hi]

theorem take_le_take {ℓ : List E} {i j : Nat} (h : i ≤ j) : ℓ.take i <+: ℓ.take j := by
  have heq : ℓ.take i = (ℓ.take j).take i := by rw [List.take_take, min_eq_left h]
  rw [heq]
  exact take_le _ i

theorem termAt_of_le {ℓ ℓ' : List E} {i : Nat} (h : ℓ <+: ℓ') (hi : i ≤ ℓ.length) :
    termAt τ ℓ i = termAt τ ℓ' i := by
  rw [← termAt_take τ (ℓ := ℓ) le_rfl, take_eq_of_le h hi, termAt_take τ le_rfl]

theorem exists_mem_of_termAt {ℓ : List E} {i : Nat} (h0 : 0 < i) (hi : i ≤ ℓ.length) :
    ∃ x ∈ ℓ, τ x = termAt τ ℓ i := by
  obtain ⟨i, rfl⟩ := Nat.exists_eq_succ_of_ne_zero h0.ne'
  refine ⟨ℓ[i], List.getElem_mem _, ?_⟩
  simp [termAt, List.getElem?_eq_getElem (Nat.lt_of_succ_le hi)]

theorem termAt_le_of_forall {ℓ : List E} {t : Nat} (h : ∀ x ∈ ℓ, τ x ≤ t) (i : Nat) :
    termAt τ ℓ i ≤ t := by
  cases i with
  | zero => exact Nat.zero_le t
  | succ i =>
    simp only [termAt]
    cases hx : ℓ[i]? with
    | none => exact Nat.zero_le t
    | some x => exact h x (List.mem_of_getElem? hx)

/-- Every prefix is one of the leader that wrote its last entry. -/
def Good (L : Nat → List E) (ℓ : List E) : Prop :=
  ∀ i, 0 < i → i ≤ ℓ.length → ℓ.take i <+: L (termAt τ ℓ i)

variable {τ}

namespace Good

variable {L L' : Nat → List E} {ℓ ℓ' : List E}

theorem nil : Good τ L [] := fun i h0 hi => absurd hi (by simpa using h0.ne')

theorem mono (h : Good τ L ℓ) (hL : ∀ T, L T <+: L' T) : Good τ L' ℓ :=
  fun i h0 hi => (h i h0 hi).trans (hL _)

theorem of_le (h : Good τ L ℓ') (hℓ : ℓ <+: ℓ') : Good τ L ℓ := by
  intro i h0 hi
  rw [take_eq_of_le hℓ hi, termAt_of_le τ hℓ hi]
  exact h i h0 (hi.trans hℓ.length_le)

theorem take (h : Good τ L ℓ) (i : Nat) : Good τ L (ℓ.take i) := h.of_le (take_le ℓ i)

/-- Entries of the same term at the same index: the logs agree up to there. -/
theorem take_eq_of_termAt_eq (h : Good τ L ℓ) (h' : Good τ L ℓ') {i : Nat} (hi : i ≤ ℓ.length)
    (hi' : i ≤ ℓ'.length) (hterm : termAt τ ℓ i = termAt τ ℓ' i) : ℓ.take i = ℓ'.take i := by
  rcases Nat.eq_zero_or_pos i with rfl | h0
  · simp
  · have hp := h i h0 hi
    have hp' := h' i h0 hi'
    rw [← hterm] at hp'
    have hlen : (ℓ.take i).length = (ℓ'.take i).length := by simp [hi, hi']
    exact (List.prefix_of_prefix_length_le hp hp' hlen.le).eq_of_length hlen

/-- The terms of a good log do not decrease. -/
theorem termAt_le (h : Good τ L ℓ) (hL : ∀ T, ∀ x ∈ L T, τ x ≤ T) {i j : Nat} (hij : i ≤ j)
    (hj : j ≤ ℓ.length) : termAt τ ℓ i ≤ termAt τ ℓ j := by
  rcases Nat.eq_zero_or_pos i with rfl | h0
  · exact Nat.zero_le _
  · rw [← termAt_take τ hij]
    refine termAt_le_of_forall τ (fun x hx => ?_) i
    exact hL _ x ((h j (h0.trans_le hij) hj).subset hx)

theorem termAt_pos (h : Good τ L ℓ) (hL : ∀ T, ∀ x ∈ L T, 0 < τ x) {i : Nat} (h0 : 0 < i)
    (hi : i ≤ ℓ.length) : 0 < termAt τ ℓ i := by
  have hlen : i ≤ (ℓ.take i).length := by simp [hi]
  obtain ⟨x, hx, hterm⟩ := exists_mem_of_termAt τ h0 hlen
  rw [termAt_take τ le_rfl] at hterm
  rw [← hterm]
  exact hL _ x ((h i h0 hi).subset hx)

/-- The logs part before `i`. The term that one of them has at `i` ends in the other before
`i`. -/
theorem lt_of_termAt_ne (h : Good τ L ℓ) (h' : Good τ L ℓ') {i j : Nat} (hi : i ≤ ℓ.length)
    (hj : j ≤ ℓ'.length) (hterm : termAt τ ℓ' j = termAt τ ℓ i)
    (hne : termAt τ ℓ i ≠ termAt τ ℓ' i) : j < i := by
  by_contra hij
  have hij := Nat.le_of_not_lt hij
  rcases Nat.eq_zero_or_pos i with rfl | h0
  · exact hne rfl
  · have hp := h i h0 hi
    have hp' := h' j (h0.trans_le hij) hj
    rw [hterm] at hp'
    have hle : ℓ'.take i <+: L (termAt τ ℓ i) := (take_le_take hij).trans hp'
    have hlen : (ℓ.take i).length = (ℓ'.take i).length := by
      simp [hi, hij.trans hj]
    have heq := (List.prefix_of_prefix_length_le hp hle hlen.le).eq_of_length hlen
    refine hne ?_
    rw [← termAt_take τ (ℓ := ℓ) le_rfl, heq, termAt_take τ le_rfl]

end Good

/-! ## Comparable logs -/

def Comparable (ℓ ℓ' : List E) : Prop := ℓ <+: ℓ' ∨ ℓ' <+: ℓ

namespace Comparable

variable {ℓ ℓ' m : List E}

theorem of_le (h : ℓ <+: m) (h' : ℓ' <+: m) : Comparable ℓ ℓ' := by
  rcases le_total ℓ.length ℓ'.length with hlen | hlen
  · exact .inl (List.prefix_of_prefix_length_le h h' hlen)
  · exact .inr (List.prefix_of_prefix_length_le h' h hlen)

theorem symm (h : Comparable ℓ ℓ') : Comparable ℓ' ℓ := Or.symm h

theorem le (h : Comparable ℓ ℓ') (hlen : ℓ.length ≤ ℓ'.length) : ℓ <+: ℓ' := by
  rcases h with h | h
  · exact h
  · rw [h.eq_of_length (le_antisymm h.length_le hlen)]

end Comparable

end Replication
