import Mathlib.Init

/-!
# Runs with a trace

A system takes visible steps, which have a label, and silent ones. A run is known by the labels of
its visible steps, its trace. A simulation matches every visible step of one system by a step of
the other with the same label and every silent step by none, so that the other system has all
traces of the first.
-/

namespace Traces

variable {S T L : Type}

structure System (S L : Type) where
  step : S → L → S → Prop
  silent : S → S → Prop

/-- From the first state the system gets to the second, with this trace. -/
inductive System.Run (M : System S L) (s : S) : List L → S → Prop
  | refl : M.Run s [] s
  | silent {trace : List L} {u v : S} (h : M.Run s trace u) (hstep : M.silent u v) : M.Run s trace v
  | step {trace : List L} {u v : S} {l : L} (h : M.Run s trace u) (hstep : M.step u l v) :
    M.Run s (trace ++ [l]) v

structure Simulation (M : System S L) (N : System T L) (R : S → T → Prop) : Prop where
  step : ∀ {s s' : S} {t : T} {l : L}, R s t → M.step s l s' → ∃ t', N.step t l t' ∧ R s' t'
  silent : ∀ {s s' : S} {t : T}, R s t → M.silent s s' → R s' t

variable {M : System S L} {N : System T L} {R : S → T → Prop} {s s' : S} {t : T} {trace : List L}

/-- A run has a run of the other system with the same trace beside it. -/
theorem Simulation.run (h : Simulation M N R) (hst : R s t) (hrun : M.Run s trace s') :
    ∃ t', N.Run t trace t' ∧ R s' t' := by
  induction hrun with
  | refl => exact ⟨t, .refl, hst⟩
  | silent _ hstep ih =>
    obtain ⟨t', hrun', hR⟩ := ih
    exact ⟨t', hrun', h.silent hR hstep⟩
  | step _ hstep ih =>
    obtain ⟨t', hrun', hR⟩ := ih
    obtain ⟨t'', hstep', hR'⟩ := h.step hR hstep
    exact ⟨t'', .step hrun' hstep', hR'⟩

end Traces
