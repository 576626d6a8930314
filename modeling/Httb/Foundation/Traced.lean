import Mathlib.Data.List.Infix

/-!
# Fuelled Computations with a Trace

A program that may run forever is given as a family `f : ℕ → Traced ε α` indexed by
fuel: `f n` holds the events emitted before the fuel ran out and, if the program got
that far, its result.

## Reading a family

- `Returns f es a`: the program terminates with result `a`, having emitted exactly `es`
- `EmitsAtMost f k`: no run, terminating or not, emits more than `k` events

Both are meaningful for families that only ever extend what less fuel showed
(`Extends`, `Growing`); sequencing (`bind`) and `emit` keep this.
-/

namespace Httb.Foundation

variable {ε α β : Type*}

/-- What a fuelled run shows: the events so far, and the result once there is one. -/
structure Traced (ε α : Type*) where
  events : List ε
  result : Option α

namespace Traced

/-- The run is over. -/
def done (a : α) : Traced ε α := ⟨[], some a⟩

/-- The fuel is used up. -/
def pending : Traced ε α := ⟨[], none⟩

/-- Emit an event, then go on. -/
def emit (e : ε) (r : Traced ε α) : Traced ε α := ⟨e :: r.events, r.result⟩

/-- Run `r` and, if it ends, go on with its result. -/
def bind (r : Traced ε α) (f : α → Traced ε β) : Traced ε β :=
  match r.result with
  | none => ⟨r.events, none⟩
  | some a => ⟨r.events ++ (f a).events, (f a).result⟩

@[simp] theorem bind_mk_none (es : List ε) (f : α → Traced ε β) :
    bind ⟨es, none⟩ f = ⟨es, none⟩ := rfl

@[simp] theorem bind_mk_some (es : List ε) (a : α) (f : α → Traced ε β) :
    bind ⟨es, some a⟩ f = ⟨es ++ (f a).events, (f a).result⟩ := rfl

/-- A bound program that ends has ended its first part. -/
theorem bind_eq_some {r : Traced ε α} {f : α → Traced ε β} {es : List ε} {b : β}
    (h : bind r f = ⟨es, some b⟩) :
    ∃ es₁ es₂ a, r = ⟨es₁, some a⟩ ∧ f a = ⟨es₂, some b⟩ ∧ es = es₁ ++ es₂ := by
  obtain ⟨es₁, res⟩ := r
  cases res with
  | none => simp at h
  | some a =>
    rw [bind_mk_some, Traced.mk.injEq] at h
    exact ⟨es₁, (f a).events, a, rfl, by rw [← h.2], h.1.symm⟩

theorem emit_eq_some {e : ε} {r : Traced ε α} {es : List ε} {a : α}
    (h : emit e r = ⟨es, some a⟩) : ∃ es', r = ⟨es', some a⟩ ∧ es = e :: es' := by
  obtain ⟨es', res⟩ := r
  rw [emit, Traced.mk.injEq] at h
  exact ⟨es', by rw [← h.2], h.1.symm⟩

theorem mem_events_emit {e e' : ε} {r : Traced ε α} (h : e ∈ (emit e' r).events) :
    e = e' ∨ e ∈ r.events := List.mem_cons.mp h

/-- What a bound program emits, one of its two parts emits. -/
theorem mem_events_bind {r : Traced ε α} {f : α → Traced ε β} {e : ε}
    (h : e ∈ (bind r f).events) : e ∈ r.events ∨ ∃ a, e ∈ (f a).events := by
  obtain ⟨es, res⟩ := r
  cases res with
  | none => exact .inl h
  | some a => exact (List.mem_append.mp h).imp_right fun h => ⟨a, h⟩

/-! ## More fuel -/

/-- `r'` shows everything `r` does, and the same result if `r` has one. -/
def Extends (r r' : Traced ε α) : Prop :=
  r = r' ∨ r.result = none ∧ r.events <+: r'.events

theorem Extends.refl (r : Traced ε α) : Extends r r := .inl rfl

theorem Extends.isPrefix {r r' : Traced ε α} (h : Extends r r') : r.events <+: r'.events := by
  rcases h with rfl | h
  · exact List.prefix_rfl
  · exact h.2

theorem Extends.trans {r₁ r₂ r₃ : Traced ε α} (h₁₂ : Extends r₁ r₂) (h₂₃ : Extends r₂ r₃) :
    Extends r₁ r₃ := by
  rcases h₁₂ with rfl | h₁₂
  · exact h₂₃
  · exact .inr ⟨h₁₂.1, h₁₂.2.trans h₂₃.isPrefix⟩

/-- A run that has ended is not changed by more fuel. -/
theorem Extends.eq_of_some {r r' : Traced ε α} (h : Extends r r') {a : α}
    (ha : r.result = some a) : r' = r := by
  rcases h with rfl | h
  · rfl
  · rw [h.1] at ha
    cases ha

theorem extends_of_pending (r : Traced ε α) : Extends pending r :=
  .inr ⟨rfl, List.nil_prefix⟩

theorem Extends.emit {r r' : Traced ε α} (h : Extends r r') (e : ε) :
    Extends (emit e r) (emit e r') := by
  rcases h with rfl | ⟨hn, hp⟩
  · exact .refl _
  · exact .inr ⟨hn, (List.prefix_cons_inj e).mpr hp⟩

theorem Extends.bind {r r' : Traced ε α} {f f' : α → Traced ε β} (h : Extends r r')
    (hf : ∀ a, Extends (f a) (f' a)) : Extends (bind r f) (bind r' f') := by
  rcases h with rfl | ⟨hn, hp⟩
  · -- the first parts agree: what matters is what follows them
    obtain ⟨es, res⟩ := r
    cases res with
    | none => exact .refl _
    | some a =>
      rcases hf a with heq | ⟨hfn, hfp⟩
      · rw [bind_mk_some, bind_mk_some, heq]
        exact .refl _
      · exact .inr ⟨hfn, (List.prefix_append_right_inj es).mpr hfp⟩
  · -- the first part had not ended: nothing of `f` was shown yet
    obtain ⟨es, res⟩ := r
    obtain ⟨es', res'⟩ := r'
    obtain rfl : res = none := hn
    refine .inr ⟨rfl, ?_⟩
    cases res' with
    | none => exact hp
    | some a => exact hp.trans (List.prefix_append _ _)

/-! ## Families indexed by fuel -/

/-- More fuel only extends what less fuel showed. -/
def Growing (f : ℕ → Traced ε α) : Prop := ∀ n, Extends (f n) (f (n + 1))

theorem Growing.extends_of_le {f : ℕ → Traced ε α} (hf : Growing f) {n m : ℕ} (h : n ≤ m) :
    Extends (f n) (f m) := by
  induction m, h using Nat.le_induction with
  | base => exact .refl _
  | succ m _ ih => exact ih.trans (hf m)

/-- The program terminates with result `a`, having emitted exactly `es`. -/
def Returns (f : ℕ → Traced ε α) (es : List ε) (a : α) : Prop := ∃ n, f n = ⟨es, some a⟩

theorem returns_of_eq {f : ℕ → Traced ε α} {es : List ε} {a : α} (n : ℕ)
    (hevents : (f n).events = es) (hresult : (f n).result = some a) : Returns f es a :=
  ⟨n, by rw [← hevents, ← hresult]⟩

/-- The program terminates. -/
def Terminates (f : ℕ → Traced ε α) : Prop := ∃ es a, Returns f es a

/-- However long the program runs, it emits no more than `k` events. -/
def EmitsAtMost (f : ℕ → Traced ε α) (k : ℕ) : Prop := ∀ n, (f n).events.length ≤ k

/-- A terminating program has one result and one trace. -/
theorem Growing.returns_unique {f : ℕ → Traced ε α} (hf : Growing f) {es es' : List ε} {a a' : α}
    (h : Returns f es a) (h' : Returns f es' a') : es = es' ∧ a = a' := by
  obtain ⟨n, hn⟩ := h
  obtain ⟨n', hn'⟩ := h'
  -- with the greater of the two fuels the program shows both
  have hmax := (hf.extends_of_le (Nat.le_max_left n n')).eq_of_some (congrArg result hn)
  have hmax' := (hf.extends_of_le (Nat.le_max_right n n')).eq_of_some (congrArg result hn')
  have heq : (⟨es, some a⟩ : Traced ε α) = ⟨es', some a'⟩ := by
    rw [← hn, ← hn', ← hmax, ← hmax']
  simpa using heq

/-- A program that returns with the trace `es` emits at most `es.length` events. -/
theorem Growing.emitsAtMost_of_returns {f : ℕ → Traced ε α} (hf : Growing f) {es : List ε} {a : α}
    (h : Returns f es a) : EmitsAtMost f es.length := by
  intro n
  obtain ⟨k, hk⟩ := h
  have hle := (hf.extends_of_le (Nat.le_max_left n k)).isPrefix.length_le
  rw [(hf.extends_of_le (Nat.le_max_right n k)).eq_of_some (congrArg result hk), hk] at hle
  exact hle

theorem Returns.length_le {f : ℕ → Traced ε α} {es : List ε} {a : α} {k : ℕ}
    (h : Returns f es a) (hk : EmitsAtMost f k) : es.length ≤ k := by
  obtain ⟨n, hn⟩ := h
  have := hk n
  rwa [hn] at this

end Traced

end Httb.Foundation
