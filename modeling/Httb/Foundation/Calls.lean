import Mathlib.Data.List.Basic

/-!
# Calls with Results

An object is used by calls, each of which returns something and leaves the object changed.
`runCalls` makes the calls of a list one after the other and collects what they return.

## Rules

- `runCalls_simulates`: if the object and a simpler one return the same for each call and stay
  related, they return the same for every run of calls
- `runCalls_refines`: the same for an abstraction function
-/

namespace Httb.Foundation

variable {σ τ ε ρ : Type*}

/-- What the calls return, and the state after them. -/
def runCalls (exec : ε → σ → ρ × σ) : List ε → σ → List ρ × σ
  | [], s => ([], s)
  | e :: es, s =>
    let out := exec e s
    let rest := runCalls exec es out.2
    (out.1 :: rest.1, rest.2)

/-- The simulation rule. -/
theorem runCalls_simulates {exec : ε → σ → ρ × σ} {spec : ε → τ → ρ × τ} {R : σ → τ → Prop}
    (hcall : ∀ e s t, R s t → (exec e s).1 = (spec e t).1 ∧ R (exec e s).2 (spec e t).2)
    (es : List ε) {s : σ} {t : τ} (h : R s t) :
    (runCalls exec es s).1 = (runCalls spec es t).1 ∧
      R (runCalls exec es s).2 (runCalls spec es t).2 := by
  induction es generalizing s t with
  | nil => exact ⟨rfl, h⟩
  | cons e es ih =>
    obtain ⟨hresult, hafter⟩ := hcall e s t h
    obtain ⟨hresults, hlast⟩ := ih hafter
    exact ⟨congrArg₂ List.cons hresult hresults, hlast⟩

/-- The refinement rule. -/
theorem runCalls_refines {exec : ε → σ → ρ × σ} {spec : ε → τ → ρ × τ} {abs : σ → τ}
    (hcall : ∀ e s, spec e (abs s) = ((exec e s).1, abs (exec e s).2)) (es : List ε) (s : σ) :
    runCalls spec es (abs s) = ((runCalls exec es s).1, abs (runCalls exec es s).2) := by
  have hstep (e : ε) (s : σ) (t : τ) (h : abs s = t) :
      (exec e s).1 = (spec e t).1 ∧ abs (exec e s).2 = (spec e t).2 := by
    subst h
    rw [hcall]
    exact ⟨rfl, rfl⟩
  obtain ⟨hresults, hlast⟩ := runCalls_simulates (R := fun s t => abs s = t) hstep es (s := s) rfl
  exact Prod.ext hresults.symm hlast.symm

end Httb.Foundation
