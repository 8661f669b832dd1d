import Mathlib.Algebra.GroupWithZero.Nat
import Mathlib.Data.List.Perm.Basic

/-!
# Threads under way

The calls that threads have under way are a list in which the order does not matter. One of them
takes a step: it is taken out, and what it has become is put back in front.
-/

namespace Threads

variable {α : Type*} {threads : List α} {i : Nat} {x : α}

theorem perm_cons_eraseIdx (h : threads[i]? = some x) : threads.Perm (x :: threads.eraseIdx i) := by
  have hat := List.getElem?_eq_some_iff.mp h
  have hperm := List.getElem_cons_eraseIdx_perm hat.1
  rw [hat.2] at hperm
  exact hperm.symm

theorem length_eraseIdx (h : threads[i]? = some x) :
    threads.length = (threads.eraseIdx i).length + 1 := (perm_cons_eraseIdx h).length_eq

/-- How many threads are in a phase, told by the one that takes a step. -/
theorem countP_eraseIdx (h : threads[i]? = some x) (p : α → Bool) :
    threads.countP p = (threads.eraseIdx i).countP p + if p x then 1 else 0 := by
  rw [(perm_cons_eraseIdx h).countP_eq, List.countP_cons]

/-- The thread stays in its place and becomes `y`. -/
theorem set_perm (h : threads[i]? = some x) (y : α) :
    (threads.set i y).Perm (y :: threads.eraseIdx i) :=
  List.set_perm_cons_eraseIdx (List.getElem?_eq_some_iff.mp h).1 y

section

variable {β : Type*}

theorem filterMap_concat (f : α → Option β) (l : List α) (a : α) :
    (l ++ [a]).filterMap f = l.filterMap f ++ (f a).toList := by
  cases ha : f a <;> simp [ha]

theorem filterMap_perm (h : threads[i]? = some x) (f : α → Option β) :
    (threads.filterMap f).Perm ((f x).toList ++ (threads.eraseIdx i).filterMap f) := by
  have hperm := (perm_cons_eraseIdx h).filterMap f
  cases hx : f x with
  | none => simpa [hx] using hperm
  | some b => simpa [hx] using hperm

theorem filterMap_set_perm (h : threads[i]? = some x) (f : α → Option β) (y : α) :
    ((threads.set i y).filterMap f).Perm ((f y).toList ++ (threads.eraseIdx i).filterMap f) := by
  have hperm := (set_perm h y).filterMap f
  cases hy : f y with
  | none => simpa [hy] using hperm
  | some b => simpa [hy] using hperm

/-- What the threads have in front of them, told by the one that takes a step. -/
theorem sum_map_set (h : threads[i]? = some x) (f : α → Nat) (y : α) :
    ((threads.set i y).map f).sum + f x = (threads.map f).sum + f y := by
  have hset := ((set_perm h y).map f).sum_nat
  have hold := ((perm_cons_eraseIdx h).map f).sum_nat
  simp only [List.map_cons, List.sum_cons] at hset hold
  omega

end

end Threads
