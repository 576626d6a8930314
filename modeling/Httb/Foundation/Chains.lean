import Httb.Foundation.Traced
import Mathlib.Logic.Relation

/-!
# Following a Chain of Hops

A partial function `next : α → Option α` and what happens when it is followed from a
starting point: the chain that is visited, how long it gets, and the fuelled program that
follows it and reports what it visits.

## Main facts

- `endsWithin_iff`: a chain ends within `k` hops exactly when it visits at most `k + 1`
  points and stops
- `hopsWithin_next`: a chain that ends gets shorter with each hop
- `returns_follow_iff`: the program that follows the chain returns exactly when the chain
  ends, having visited the chain
- `bounded_iff_endsWithin`: a program that does so keeps to `k + 1` events and terminates
  exactly when the chain ends within `k` hops
-/

namespace Httb.Foundation

variable {α β : Type*} {next : α → Option α}

/-- `Chain next a as z`: following `next` from `a` visits `as` and stops at `z`. -/
inductive Chain (next : α → Option α) : α → List α → α → Prop where
  | stop {a : α} (h : next a = none) : Chain next a [a] a
  | hop {a b z : α} {as : List α} (h : next a = some b) (hrest : Chain next b as z) :
      Chain next a (a :: as) z

namespace Chain

/-- The last point of a chain has no next one. -/
theorem next_last {a z : α} {as : List α} (h : Chain next a as z) : next z = none := by
  induction h with
  | stop h => exact h
  | hop _ _ ih => exact ih

theorem length_pos {a z : α} {as : List α} (h : Chain next a as z) : 0 < as.length := by
  cases h <;> simp

/-- A point that is reached and has no next one is the last of a chain. -/
theorem of_reflTransGen {a z : α} (h : Relation.ReflTransGen (fun a b => next a = some b) a z)
    (hstop : next z = none) : ∃ as, Chain next a as z := by
  induction h using Relation.ReflTransGen.head_induction_on with
  | refl => exact ⟨[z], .stop hstop⟩
  | head hhop _ ih =>
    obtain ⟨as, hrest⟩ := ih
    exact ⟨_, .hop hhop hrest⟩

end Chain

/-- Following `next` stops after at most `k` hops. -/
def endsWithin (next : α → Option α) : ℕ → α → Bool
  | 0, a => (next a).isNone
  | k + 1, a =>
    match next a with
    | none => true
    | some b => endsWithin next k b

theorem endsWithin_iff {k : ℕ} {a : α} :
    endsWithin next k a = true ↔ ∃ as z, Chain next a as z ∧ as.length ≤ k + 1 := by
  induction k generalizing a with
  | zero =>
    constructor
    · intro h
      exact ⟨[a], a, .stop (Option.isNone_iff_eq_none.mp h), Nat.le_refl 1⟩
    · rintro ⟨as, z, hchain, hlen⟩
      cases hchain with
      | stop h => exact Option.isNone_iff_eq_none.mpr h
      | hop h hrest =>
        have := hrest.length_pos
        simp only [List.length_cons] at hlen
        omega
  | succ k ih =>
    cases hnext : next a with
    | none =>
      simp only [endsWithin, hnext, true_iff]
      exact ⟨[a], a, .stop hnext, by simp⟩
    | some b =>
      simp only [endsWithin, hnext, ih]
      constructor
      · rintro ⟨as, z, hchain, hlen⟩
        exact ⟨a :: as, z, .hop hnext hchain, Nat.succ_le_succ hlen⟩
      · rintro ⟨as, z, hchain, hlen⟩
        cases hchain with
        | stop h => rw [hnext] at h; cases h
        | hop h hrest =>
          obtain rfl : b = _ := Option.some.inj (hnext.symm.trans h)
          exact ⟨_, z, hrest, Nat.le_of_succ_le_succ hlen⟩

/-- How many hops follow, counting no more than `k`. -/
def hopsWithin (next : α → Option α) : ℕ → α → ℕ
  | 0, _ => 0
  | k + 1, a =>
    match next a with
    | none => 0
    | some b => hopsWithin next k b + 1

theorem hopsWithin_le (next : α → Option α) (k : ℕ) (a : α) : hopsWithin next k a ≤ k := by
  induction k generalizing a with
  | zero => exact Nat.le_refl 0
  | succ k ih =>
    rw [hopsWithin]
    split
    · exact Nat.zero_le _
    · exact Nat.succ_le_succ (ih _)

/-- Of a chain that ends, counting further finds nothing more. -/
theorem hopsWithin_succ {k : ℕ} {a : α} (h : endsWithin next k a = true) :
    endsWithin next (k + 1) a = true ∧ hopsWithin next (k + 1) a = hopsWithin next k a := by
  induction k generalizing a with
  | zero =>
    have hnone : next a = none := Option.isNone_iff_eq_none.mp h
    simp [endsWithin, hopsWithin, hnone]
  | succ k ih =>
    rw [endsWithin, hopsWithin, hopsWithin]
    cases hnext : next a with
    | none => exact ⟨rfl, rfl⟩
    | some b =>
      simp only [endsWithin, hnext] at h
      exact ⟨(ih h).1, congrArg (· + 1) (ih h).2⟩

/-- A chain that ends is one hop shorter from its next point. -/
theorem hopsWithin_next {k : ℕ} {a b : α} (h : endsWithin next k a = true)
    (hnext : next a = some b) :
    endsWithin next k b = true ∧ hopsWithin next k b + 1 = hopsWithin next k a := by
  cases k with
  | zero =>
    rw [endsWithin, hnext] at h
    cases h
  | succ k =>
    simp only [endsWithin, hnext] at h
    refine ⟨(hopsWithin_succ h).1, ?_⟩
    simp only [hopsWithin, hnext]
    exact congrArg (· + 1) (hopsWithin_succ h).2

namespace Traced

/-- Follow `next`, emitting what is visited, and return `out` of the last point. -/
def follow (next : α → Option α) (out : α → β) : ℕ → α → Traced α β
  | 0, _ => pending
  | n + 1, a => emit a <|
    match next a with
    | none => done (out a)
    | some b => follow next out n b

variable {out : α → β}

theorem growing_follow (a : α) : Growing fun n => follow next out n a := by
  intro n
  induction n generalizing a with
  | zero => exact extends_of_pending _
  | succ n ih =>
    refine Extends.emit ?_ a
    cases next a with
    | none => exact .refl _
    | some b => exact ih b

/-- The program returns exactly when the chain ends. -/
theorem returns_follow_iff {a : α} {es : List α} {r : β} :
    Returns (fun n => follow next out n a) es r ↔ ∃ z, Chain next a es z ∧ r = out z := by
  constructor
  · -- the fuel that was enough bounds the length of the chain
    rintro ⟨n, hn⟩
    induction n generalizing a es with
    | zero => cases hn
    | succ n ih =>
      obtain ⟨es', hrest, rfl⟩ := emit_eq_some hn
      cases hnext : next a with
      | none =>
        rw [hnext, done, Traced.mk.injEq] at hrest
        obtain ⟨rfl, hr⟩ := hrest
        exact ⟨a, .stop hnext, (Option.some.inj hr).symm⟩
      | some b =>
        rw [hnext] at hrest
        obtain ⟨z, hchain, hr⟩ := ih hrest
        exact ⟨z, .hop hnext hchain, hr⟩
  · rintro ⟨z, hchain, rfl⟩
    induction hchain with
    | stop h => exact ⟨1, by simp [follow, h, emit, done]⟩
    | hop h _ ih =>
      obtain ⟨n, hn⟩ := ih
      exact ⟨n + 1, by simp only [follow, h, hn, emit]⟩

end Traced

/-- A growing program that returns exactly along the chains of `next` keeps to `k + 1`
events and terminates exactly when the chain ends within `k` hops. -/
theorem bounded_iff_endsWithin {f : ℕ → Traced α β} (hf : Traced.Growing f) {out : α → β} {a : α}
    (hreturns : ∀ es r, Traced.Returns f es r ↔ ∃ z, Chain next a es z ∧ r = out z) (k : ℕ) :
    Traced.EmitsAtMost f (1 + k) ∧ Traced.Terminates f ↔ endsWithin next k a = true := by
  rw [endsWithin_iff]
  constructor
  · rintro ⟨hbound, es, r, hr⟩
    obtain ⟨z, hchain, _⟩ := (hreturns es r).mp hr
    have hlen := hr.length_le hbound
    exact ⟨es, z, hchain, by omega⟩
  · -- the one trace the program returns with bounds every run
    rintro ⟨es, z, hchain, hlen⟩
    have hr := (hreturns es (out z)).mpr ⟨z, hchain, rfl⟩
    refine ⟨fun n => ?_, es, out z, hr⟩
    have := hf.emitsAtMost_of_returns hr n
    omega

end Httb.Foundation
