import Mathlib.Logic.Relation

/-!
# Runs of Labelled Transition Systems

A transition system is a relation `step : σ → ε → σ → Prop`; a run is a sequence of
steps, kept as the list of events with the state each of them leads to.

## Rules

- `Run.always_of_guarded`: what holds at the start and is kept by each step that meets a
  guard holds at every state of a run whose steps all meet it
- `Always.last`: then it holds in the state the run ends in
- `Run.always_iff_guarded`: a property that each step meeting a guard keeps, and each
  step violating it destroys, holds throughout a run exactly when every step of the
  run meets the guard
- `Run.restrict`: a run whose steps all meet a guard is a run of the restricted system
- `Reachable.invariant`: the invariant rule for reachable states
-/

namespace Httb.Foundation

variable {σ ε : Type*}

/-- `Run step s tr`: the events and states of `tr` follow one another from `s`. -/
inductive Run (step : σ → ε → σ → Prop) : σ → List (ε × σ) → Prop where
  | nil (s : σ) : Run step s []
  | cons {s s' : σ} {e : ε} {tr : List (ε × σ)} (hstep : step s e s') (hrest : Run step s' tr) :
      Run step s ((e, s') :: tr)

/-- The property holds at every state a run from `s` visits, `s` included. -/
def Always (P : σ → Prop) : σ → List (ε × σ) → Prop
  | s, [] => P s
  | s, (_, s') :: tr => P s ∧ Always P s' tr

/-- Every step of a run from `s` meets the guard, a condition on the state before the
step and its event. -/
def Guarded (G : σ → ε → Prop) : σ → List (ε × σ) → Prop
  | _, [] => True
  | s, (e, s') :: tr => G s e ∧ Guarded G s' tr

instance Guarded.decidable {G : σ → ε → Prop} [∀ s e, Decidable (G s e)] :
    ∀ (s : σ) (tr : List (ε × σ)), Decidable (Guarded G s tr)
  | _, [] => inferInstanceAs (Decidable True)
  | s, (e, s') :: tr =>
    have := Guarded.decidable (G := G) s' tr
    inferInstanceAs (Decidable (G s e ∧ Guarded G s' tr))

/-- The state a run ends in. -/
def lastState : σ → List (ε × σ) → σ
  | s, [] => s
  | _, (_, s') :: tr => lastState s' tr

theorem Always.head {P : σ → Prop} {s : σ} {tr : List (ε × σ)} (h : Always P s tr) : P s := by
  cases tr with
  | nil => exact h
  | cons x tr => exact h.1

theorem Always.last {P : σ → Prop} {s : σ} {tr : List (ε × σ)} (h : Always P s tr) :
    P (lastState s tr) := by
  induction tr generalizing s with
  | nil => exact h
  | cons x tr ih => exact ih h.2

theorem Always.mono {P Q : σ → Prop} (hPQ : ∀ s, P s → Q s) {s : σ} {tr : List (ε × σ)}
    (h : Always P s tr) : Always Q s tr := by
  induction tr generalizing s with
  | nil => exact hPQ s h
  | cons x tr ih => exact ⟨hPQ s h.1, ih h.2⟩

theorem Always.and {P Q : σ → Prop} {s : σ} {tr : List (ε × σ)} (h : Always P s tr)
    (h' : Always Q s tr) : Always (fun s => P s ∧ Q s) s tr := by
  induction tr generalizing s with
  | nil => exact ⟨h, h'⟩
  | cons x tr ih => exact ⟨⟨h.1, h'.1⟩, ih h.2 h'.2⟩

/-- The states that a list of events leads through, when each step is a function. -/
def traceOf (f : σ → ε → σ) : σ → List ε → List (ε × σ)
  | _, [] => []
  | s, e :: es => (e, f s e) :: traceOf f (f s e) es

theorem run_traceOf (f : σ → ε → σ) (s : σ) (es : List ε) :
    Run (fun s e s' => s' = f s e) s (traceOf f s es) := by
  induction es generalizing s with
  | nil => exact .nil s
  | cons e es ih => exact .cons rfl (ih (f s e))

/-- A guard that looks at the events alone. -/
theorem guarded_traceOf_iff {G : ε → Prop} {f : σ → ε → σ} {s : σ} {es : List ε} :
    Guarded (fun _ e => G e) s (traceOf f s es) ↔ ∀ e ∈ es, G e := by
  induction es generalizing s with
  | nil => exact iff_of_true trivial (by simp)
  | cons e es ih => rw [traceOf, Guarded, ih, List.forall_mem_cons]

namespace Run

variable {step : σ → ε → σ → Prop} {s : σ} {tr : List (ε × σ)}

/-- The invariant rule, for steps that meet a guard. -/
theorem always_of_guarded {P : σ → Prop} {G : σ → ε → Prop} (hr : Run step s tr) (h₀ : P s)
    (hstep : ∀ s e s', P s → G s e → step s e s' → P s') (hG : Guarded G s tr) :
    Always P s tr := by
  induction hr with
  | nil s => exact h₀
  | cons hs _ ih => exact ⟨h₀, ih (hstep _ _ _ h₀ hG.1 hs) hG.2⟩

/-- The invariant rule. -/
theorem always {P : σ → Prop} (hr : Run step s tr) (h₀ : P s)
    (hstep : ∀ s e s', P s → step s e s' → P s') : Always P s tr := by
  induction hr with
  | nil s => exact h₀
  | cons hs _ ih => exact ⟨h₀, ih (hstep _ _ _ h₀ hs)⟩

/-- A run whose steps all meet a guard is a run of the system that the guard cuts out. -/
theorem restrict {G : σ → ε → Prop} (hr : Run step s tr) (hG : Guarded G s tr) :
    Run (fun s e s' => step s e s' ∧ G s e) s tr := by
  induction hr with
  | nil s => exact .nil s
  | cons hs _ ih => exact .cons ⟨hs, hG.1⟩ (ih hG.2)

/-- When the guard is exactly what keeps the property, a run has the property throughout
iff all of its steps meet the guard. -/
theorem always_iff_guarded {Inv P : σ → Prop} {G : σ → ε → Prop} (hr : Run step s tr)
    (h₀ : Inv s) (hP : ∀ s, Inv s → P s)
    (hstep : ∀ s e s', Inv s → G s e → step s e s' → Inv s')
    (hbad : ∀ s e s', Inv s → ¬ G s e → step s e s' → ¬ P s') :
    Always P s tr ↔ Guarded G s tr := by
  constructor
  · -- a step outside the guard would destroy the property at the state it leads to
    intro h
    induction hr with
    | nil s => trivial
    | @cons s s' e tr hs _ ih =>
      have hG : G s e := Classical.byContradiction fun hG =>
        hbad s e s' h₀ hG hs h.2.head
      exact ⟨hG, ih (hstep _ _ _ h₀ hG hs) h.2⟩
  · intro hG
    exact (hr.always_of_guarded h₀ hstep hG).mono hP

end Run

/-- `s'` is reachable from `s` by steps of the system. -/
def Reachable (step : σ → ε → σ → Prop) : σ → σ → Prop :=
  Relation.ReflTransGen fun s s' => ∃ e, step s e s'

/-- What holds at the start and is kept by each step holds at every reachable state. -/
theorem Reachable.invariant {step : σ → ε → σ → Prop} {P : σ → Prop} {s s' : σ}
    (hr : Reachable step s s') (h₀ : P s) (hstep : ∀ s e s', P s → step s e s' → P s') :
    P s' := by
  induction hr with
  | refl => exact h₀
  | tail _ hs ih =>
    obtain ⟨e, he⟩ := hs
    exact hstep _ _ _ ih he

end Httb.Foundation
