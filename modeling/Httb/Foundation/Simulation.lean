import Httb.Foundation.Runs

/-!
# Simulations

A system is seen through a function into the states of a coarser one. Each of its steps is a
step of the coarser system, or is not seen there at all.

## Rules

- `Simulates.exists_run`: a run is seen as a run
- `Simulates.always`: what the steps of the coarser system keep holds throughout a run of the
  finer one
-/

namespace Httb.Foundation

variable {σ ε τ δ : Type*}

/-- The steps of a system, from states with the invariant, are seen through `abs` as steps of a
coarser system, or not at all; a step that meets the guard is seen as one that does. -/
structure Simulates (step : σ → ε → σ → Prop) (G : σ → ε → Prop) (step' : τ → δ → τ → Prop)
    (G' : τ → δ → Prop) (abs : σ → τ) (Inv : σ → Prop) : Prop where
  inv : ∀ s e s', Inv s → step s e s' → Inv s'
  matched : ∀ s e s', Inv s → G s e → step s e s' →
    abs s' = abs s ∨ ∃ e', G' (abs s) e' ∧ step' (abs s) e' (abs s')

namespace Simulates

variable {step : σ → ε → σ → Prop} {G : σ → ε → Prop} {step' : τ → δ → τ → Prop}
  {G' : τ → δ → Prop} {abs : σ → τ} {Inv : σ → Prop} {s : σ} {tr : List (ε × σ)}

/-- The run that is seen ends in what is seen of the state the run ends in. -/
theorem exists_run (h : Simulates step G step' G' abs Inv) (hr : Run step s tr) (h₀ : Inv s)
    (hG : Guarded G s tr) :
    ∃ tr', Run step' (abs s) tr' ∧ Guarded G' (abs s) tr' ∧
      lastState (abs s) tr' = abs (lastState s tr) := by
  induction hr with
  | nil s => exact ⟨[], .nil _, trivial, rfl⟩
  | @cons s s' e tr hs _ ih =>
    obtain ⟨tr', hr', hG', hlast⟩ := ih (h.inv _ _ _ h₀ hs) hG.2
    rcases h.matched _ _ _ h₀ hG.1 hs with hsame | ⟨e', he', hs'⟩
    · -- the step is not seen, and the rest is seen from where the run was
      rw [hsame] at hr' hG' hlast
      exact ⟨tr', hr', hG', hlast⟩
    · exact ⟨(e', abs s') :: tr', .cons hs' hr', ⟨he', hG'⟩, hlast⟩

/-- The invariant rule, for properties of what is seen. -/
theorem always (h : Simulates step G step' G' abs Inv) {P : τ → Prop} (hr : Run step s tr)
    (h₀ : Inv s) (hG : Guarded G s tr) (hP₀ : P (abs s))
    (hP : ∀ t e t', P t → G' t e → step' t e t' → P t') :
    Always (fun s => Inv s ∧ P (abs s)) s tr := by
  refine hr.always_of_guarded ⟨h₀, hP₀⟩ ?_ hG
  intro s e s' hs hGs hstep
  refine ⟨h.inv _ _ _ hs.1 hstep, ?_⟩
  rcases h.matched _ _ _ hs.1 hGs hstep with hsame | ⟨e', he', hs'⟩
  · rw [hsame]
    exact hs.2
  · exact hP _ _ _ hs.2 he' hs'

end Simulates

end Httb.Foundation
