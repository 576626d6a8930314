import Mathlib.Data.List.Basic

/-!
# States in Components

A state that is changed by events, seen through one of its components at a time. A component
moves on its own: what an event makes of it depends on nothing else of the state. Then a run
of events is, for the component, a run of the events that touch it.

## Rules

- `Component.get_foldl`: a run seen through a component is a run of the component
- `Component.get_foldl_filter`: the events that do not touch it can be left out
- `get_register`: a component that events overwrite holds the last value written
-/

namespace Httb.Foundation

variable {σ ε κ : Type*}

/-- A component of a state. -/
structure Component (apply : σ → ε → σ) (κ : Type*) where
  get : σ → κ
  step : κ → ε → κ
  /-- Whether an event touches the component at all. -/
  touches : ε → Bool
  get_apply : ∀ s e, get (apply s e) = step (get s) e
  step_of_not_touches : ∀ e, touches e = false → ∀ k, step k e = k

namespace Component

variable {apply : σ → ε → σ} (c : Component apply κ)

/-- An event that does not touch a component leaves it. -/
theorem get_of_not_touches (s : σ) {e : ε} (h : c.touches e = false) :
    c.get (apply s e) = c.get s :=
  (c.get_apply s e).trans (c.step_of_not_touches e h (c.get s))

theorem get_foldl (s : σ) (es : List ε) : c.get (es.foldl apply s) = es.foldl c.step (c.get s) :=
  (List.foldl_hom c.get fun s e => (c.get_apply s e).symm).symm

theorem foldl_step_filter (k : κ) (es : List ε) :
    es.foldl c.step k = (es.filter c.touches).foldl c.step k := by
  induction es generalizing k with
  | nil => rfl
  | cons e es ih =>
    cases htouches : c.touches e with
    | true => rw [List.filter_cons_of_pos htouches, List.foldl_cons, List.foldl_cons, ih]
    | false =>
      rw [List.filter_cons_of_neg (by simp [htouches]), List.foldl_cons,
        c.step_of_not_touches e htouches, ih]

/-- After a run the component is what the events that touch it make of it. -/
theorem get_foldl_filter (s : σ) (es : List ε) :
    c.get (es.foldl apply s) = (es.filter c.touches).foldl c.step (c.get s) := by
  rw [c.get_foldl, c.foldl_step_filter]

/-! ## Registers -/

/-- A component that an event overwrites, or leaves alone. -/
def register (get : σ → κ) (write : ε → Option κ)
    (h : ∀ s e, get (apply s e) = (write e).getD (get s)) : Component apply κ where
  get := get
  step k e := (write e).getD k
  touches e := (write e).isSome
  get_apply := h
  step_of_not_touches e he k := by
    have hnone : write e = none := Option.isSome_eq_false_iff.mp he |> Option.isNone_iff_eq_none.mp
    rw [hnone, Option.getD_none]

/-- The last value that a run writes, if it writes one. -/
def lastWrite (write : ε → Option κ) (es : List ε) : Option κ := (es.filterMap write).getLast?

theorem foldl_getD (write : ε → Option κ) (k : κ) (es : List ε) :
    es.foldl (fun k e => (write e).getD k) k = (lastWrite write es).getD k := by
  induction es generalizing k with
  | nil => rfl
  | cons e es ih =>
    rw [List.foldl_cons, ih, lastWrite, lastWrite]
    cases hwrite : write e with
    | none => rw [List.filterMap_cons_none hwrite, Option.getD_none]
    | some k' =>
      rw [List.filterMap_cons_some hwrite, List.getLast?_cons, Option.getD_some,
        Option.getD_some]

/-- After a run a register holds the last value written. -/
theorem get_register {get : σ → κ} {write : ε → Option κ}
    (h : ∀ s e, get (apply s e) = (write e).getD (get s)) (s : σ) (es : List ε) :
    get (es.foldl apply s) = (lastWrite write es).getD (get s) := by
  have hfold := (register get write h).get_foldl s es
  rwa [register, foldl_getD] at hfold

end Component

end Httb.Foundation
