import Mathlib.Data.List.Flatten
import Mathlib.Data.List.Sort

/-!
# Sorting without stability

A sorting routine that is not stable puts its input in order and leaves open which of two equal
elements comes first. Two such routines agree on the keys, place by place. They agree on what is
collected from the elements in their order when of equal elements at most one has something to
give, and otherwise they need not.
-/

namespace Sorting

variable {α β : Type*} {le : α → α → Bool}

/-- A routine that sorts by `le`. -/
structure Sorter (le : α → α → Bool) where
  sort : List α → List α
  perm : ∀ l, (sort l).Perm l
  sorted : ∀ l, (sort l).Pairwise fun a b => le a b = true

namespace Sorter

@[simp]
theorem mem_sort (s : Sorter le) {l : List α} {a : α} : a ∈ s.sort l ↔ a ∈ l := (s.perm l).mem_iff

/-- Equal elements stay in the order in which they come. -/
def stable (htrans : ∀ a b c, le a b = true → le b c = true → le a c = true)
    (htotal : ∀ a b, (le a b || le b a) = true) : Sorter le where
  sort l := l.mergeSort le
  perm l := List.mergeSort_perm l le
  sorted l := List.pairwise_mergeSort htrans htotal l

section Update

variable [DecidableEq α] (s : Sorter le) {l o : List α} (hperm : o.Perm l)
  (hsorted : o.Pairwise fun a b => le a b = true)

/-- Another routine, which puts the elements of `l` in the order of `o`. -/
def update : Sorter le where
  sort l' := if l' = l then o else s.sort l'
  perm l' := by
    split
    · rename_i heq
      exact heq ▸ hperm
    · exact s.perm l'
  sorted l' := by
    split
    · exact hsorted
    · exact s.sorted l'

theorem update_sort : (s.update hperm hsorted).sort l = o := if_pos rfl

theorem update_sort_ne {l' : List α} (h : l' ≠ l) :
    (s.update hperm hsorted).sort l' = s.sort l' := if_neg h

end Update

/-- Of two equal elements some routine puts this one first. -/
theorem exists_sublist [DecidableEq α]
    (htrans : ∀ a b c, le a b = true → le b c = true → le a c = true)
    (htotal : ∀ a b, (le a b || le b a) = true) {x y : α} {l : List α} (hx : x ∈ l) (hy : y ∈ l)
    (hne : y ≠ x) (hle : le x y = true) : ∃ s : Sorter le, [x, y].Sublist (s.sort l) := by
  have hperm : ((x :: l.erase x).mergeSort le).Perm l :=
    (List.mergeSort_perm _ le).trans (List.perm_cons_erase hx).symm
  have hrest : [y].Sublist (l.erase x) :=
    List.singleton_sublist.mpr ((List.mem_erase_of_ne hne).mpr hy)
  refine ⟨(stable htrans htotal).update hperm (List.pairwise_mergeSort htrans htotal _), ?_⟩
  rw [update_sort]
  exact List.pair_sublist_mergeSort htrans htotal hle (hrest.cons_cons x)

end Sorter

/-- Two orders of the same elements have the same keys. -/
theorem map_eq_of_perm {r : β → β → Prop} (hanti : ∀ x y, r x y → r y x → x = y) {key : α → β}
    {l l' : List α} (hperm : l.Perm l') (hl : l.Pairwise fun a b => r (key a) (key b))
    (hl' : l'.Pairwise fun a b => r (key a) (key b)) : l.map key = l'.map key :=
  List.Perm.eq_of_pairwise (fun x y _ _ => hanti x y) (List.pairwise_map.mpr hl)
    (List.pairwise_map.mpr hl') (hperm.map key)

section Collect

variable {g : α → List β} {l l' : List α}

theorem flatMap_filter_isEmpty (g : α → List β) (l : List α) :
    (l.filter fun a => !(g a).isEmpty).flatMap g = l.flatMap g := by
  induction l with
  | nil => rfl
  | cons a l ih =>
    cases hg : g a with
    | nil => simpa [hg] using ih
    | cons b rest => simp [hg, ih]

/-- Equal elements without anything to give do not matter. -/
theorem flatMap_eq_of_perm (hperm : l.Perm l') (hl : l.Pairwise fun a b => le a b = true)
    (hl' : l'.Pairwise fun a b => le a b = true)
    (hties : ∀ a ∈ l, ∀ b ∈ l, le a b = true → le b a = true → g a ≠ [] → g b ≠ [] → a = b) :
    l.flatMap g = l'.flatMap g := by
  have hgives : ∀ {l : List α} {a : α}, a ∈ l.filter (fun a => !(g a).isEmpty) →
      a ∈ l ∧ g a ≠ [] := by
    intro l a ha
    obtain ⟨hmem, hsome⟩ := List.mem_filter.mp ha
    exact ⟨hmem, by simpa using hsome⟩
  have hsame : l.filter (fun a => !(g a).isEmpty) = l'.filter fun a => !(g a).isEmpty := by
    refine List.Perm.eq_of_pairwise (fun a b ha hb hab hba => ?_) (hl.filter _) (hl'.filter _)
      (hperm.filter _)
    obtain ⟨ha, hga⟩ := hgives ha
    obtain ⟨hb, hgb⟩ := hgives hb
    exact hties a ha b (hperm.mem_iff.mpr hb) hab hba hga hgb
  rw [← flatMap_filter_isEmpty g l, hsame, flatMap_filter_isEmpty g l']

theorem pair_sublist_or {a b : α} (ha : a ∈ l) (hb : b ∈ l) (hne : a ≠ b) :
    [a, b].Sublist l ∨ [b, a].Sublist l := by
  induction l with
  | nil => cases ha
  | cons c l ih =>
    rcases List.mem_cons.mp ha with rfl | ha'
    · have hb' := (List.mem_cons.mp hb).resolve_left hne.symm
      exact .inl ((List.singleton_sublist.mpr hb').cons_cons a)
    · rcases List.mem_cons.mp hb with rfl | hb'
      · exact .inr ((List.singleton_sublist.mpr ha').cons_cons b)
      · exact (ih ha' hb').imp (·.cons c) (·.cons c)

/-- Two elements that both have something to give are told apart by their order, when what is
collected is in an order of its own. -/
theorem flatMap_ne_of_swap {lt : β → β → Prop} (hasymm : ∀ x y, lt x y → ¬ lt y x) {a b : α}
    (h : [a, b].Sublist l) (h' : [b, a].Sublist l') (ha : g a ≠ []) (hb : g b ≠ [])
    (hsorted : (l.flatMap g).Pairwise lt) : l'.flatMap g ≠ l.flatMap g := by
  obtain ⟨x, hx⟩ := List.exists_mem_of_ne_nil _ ha
  obtain ⟨y, hy⟩ := List.exists_mem_of_ne_nil _ hb
  have hpair : ∀ {a b : α} {x y : β} {l : List α}, [a, b].Sublist l → x ∈ g a → y ∈ g b →
      [x, y].Sublist (l.flatMap g) := by
    intro a b x y l h hx hy
    have hboth := h.flatMap g
    rw [List.flatMap_cons, List.flatMap_singleton] at hboth
    exact ((List.singleton_sublist.mpr hx).append (List.singleton_sublist.mpr hy)).trans hboth
  intro heq
  have hxy := hsorted.sublist (hpair h hx hy)
  have hyx := hsorted.sublist (heq ▸ hpair h' hy hx)
  exact hasymm x y (List.pairwise_pair.mp hxy) (List.pairwise_pair.mp hyx)

end Collect

end Sorting
