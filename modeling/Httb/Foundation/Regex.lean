import Mathlib.Data.List.Basic
import Mathlib.Data.List.Infix
import Mathlib.Data.List.TakeWhile

/-!
# Backtracking Regular Expressions with Captures

The fragment of Perl-style regular expressions in which a repetition ranges over a
class of symbols: concatenation, greedy optional parts, greedy (bounded) class
repetitions and numbered groups.

## Semantics

`successes r s` lists every way in which `r` matches a prefix of `s`, in the order in
which a backtracking engine tries them: the greedy choice comes first, and a later
element is reached only when what follows rejects all earlier ones. Hence

- the head of the list is the match an engine reports at this position (`first`),
- `search` reports the leftmost position that has one,
- a whole-string match exists iff some element leaves nothing over (`MatchesWhole`).
-/

namespace Httb.Foundation

variable {α : Type*}

/-- Regular expressions over an alphabet `α`; a class of symbols is a predicate. -/
inductive Regex (α : Type*) where
  /-- One symbol of a class. -/
  | set (p : α → Bool)
  /-- Between `lo` and `hi` symbols of a class, as many as possible; no `hi`, no limit. -/
  | many (p : α → Bool) (lo : Nat) (hi : Option Nat)
  /-- One expression after the other. -/
  | seq (r t : Regex α)
  /-- An optional part, present if possible. -/
  | opt (r : Regex α)
  /-- The capturing group number `i`. -/
  | group (i : Nat) (r : Regex α)

namespace Regex

/-- One way in which an expression matches a prefix of the input. -/
structure Success (α : Type*) where
  /-- The matched prefix. -/
  consumed : List α
  /-- What is left of the input. -/
  rest : List α
  /-- The groups that took part, with the text each of them captured. -/
  groups : List (Nat × List α)

/-- A success followed by a success on what it left. -/
def Success.append (m n : Success α) : Success α :=
  ⟨m.consumed ++ n.consumed, n.rest, m.groups ++ n.groups⟩

/-- The text captured by group `i`; empty when the group took no part. -/
def Success.capture (m : Success α) (i : Nat) : List α :=
  (m.groups.lookup i).getD []

/-- The greatest number of symbols a class repetition can take from `s`. -/
def reach (p : α → Bool) (hi : Option Nat) (s : List α) : Nat :=
  match hi with
  | none => (s.takeWhile p).length
  | some h => min (s.takeWhile p).length h

/-- All matches of a prefix of the input, in the order of a backtracking engine. -/
def successes : Regex α → List α → List (Success α)
  | .set _, [] => []
  | .set p, c :: s => if p c then [⟨[c], s, []⟩] else []
  | .many p lo hi, s =>
      -- the longest run first, then ever shorter ones, down to `lo`
      (List.range' lo (reach p hi s + 1 - lo)).reverse.map fun k => ⟨s.take k, s.drop k, []⟩
  | .seq r t, s => (successes r s).flatMap fun m => (successes t m.rest).map m.append
  -- leaving the part out is tried last
  | .opt r, s => successes r s ++ [⟨[], s, []⟩]
  | .group i r, s => (successes r s).map fun m => { m with groups := (i, m.consumed) :: m.groups }

/-- The match an engine reports for an attempt at this position. -/
def first (r : Regex α) (s : List α) : Option (Success α) := (r.successes s).head?

/-- The match at the leftmost position that has one. -/
def search (r : Regex α) : List α → Option (Success α)
  | [] => r.first []
  | c :: s =>
      match r.first (c :: s) with
      | some m => some m
      | none => search r s

/-- The expression matches the string as a whole. -/
def MatchesWhole (r : Regex α) (s : List α) : Prop := ∃ m ∈ r.successes s, m.rest = []

instance (r : Regex α) (s : List α) : Decidable (r.MatchesWhole s) :=
  decidable_of_iff ((r.successes s).any (·.rest.isEmpty) = true) (by
    simp [MatchesWhole])

/-- The number of capturing groups of an expression. -/
def groupCount : Regex α → Nat
  | .set _ => 0
  | .many _ _ _ => 0
  | .seq r t => groupCount r + groupCount t
  | .opt r => groupCount r
  | .group _ r => groupCount r + 1

/-! ## Which prefixes are matched -/

theorem mem_successes_set {p : α → Bool} {s : List α} {m : Success α} :
    m ∈ (set p).successes s ↔ ∃ c t, s = c :: t ∧ p c = true ∧ m = ⟨[c], t, []⟩ := by
  cases s with
  | nil => simp [successes]
  | cons c s =>
    by_cases h : p c = true
    · simp [successes, h]
    · simp [successes, h]

theorem mem_successes_seq {r t : Regex α} {s : List α} {m : Success α} :
    m ∈ (seq r t).successes s ↔
      ∃ m₁ ∈ r.successes s, ∃ m₂ ∈ t.successes m₁.rest, m = m₁.append m₂ := by
  simp [successes, eq_comm]

theorem mem_successes_opt {r : Regex α} {s : List α} {m : Success α} :
    m ∈ (opt r).successes s ↔ m ∈ r.successes s ∨ m = ⟨[], s, []⟩ := by
  simp [successes]

theorem mem_successes_group {i : Nat} {r : Regex α} {s : List α} {m : Success α} :
    m ∈ (group i r).successes s ↔
      ∃ m₁ ∈ r.successes s, m = { m₁ with groups := (i, m₁.consumed) :: m₁.groups } := by
  simp [successes, eq_comm]

private theorem le_reach_iff {p : α → Bool} {hi : Option Nat} {s : List α} {k : Nat} :
    k ≤ reach p hi s ↔ k ≤ (s.takeWhile p).length ∧ ∀ h ∈ hi, k ≤ h := by
  cases hi with
  | none => simp [reach]
  | some h =>
    rw [reach]
    simp only [Option.mem_def, Option.some.injEq, forall_eq']
    omega

private theorem le_length_takeWhile_iff {p : α → Bool} {s : List α} {k : Nat} :
    k ≤ (s.takeWhile p).length ↔ k ≤ s.length ∧ ∀ c ∈ s.take k, p c = true := by
  induction s generalizing k with
  | nil => simp
  | cons c s ih =>
    cases k with
    | zero => simp
    | succ k =>
      by_cases hc : p c = true
      · simp [hc, ih]
      · simp [hc]

/-- A class repetition matches exactly the prefixes of admissible length that lie in the
class. -/
theorem mem_successes_many {p : α → Bool} {lo : Nat} {hi : Option Nat} {s : List α}
    {m : Success α} :
    m ∈ (many p lo hi).successes s ↔
      ∃ xs t, s = xs ++ t ∧ (∀ c ∈ xs, p c = true) ∧ lo ≤ xs.length ∧
        (∀ h ∈ hi, xs.length ≤ h) ∧ m = ⟨xs, t, []⟩ := by
  simp only [successes, List.mem_map, List.mem_reverse, List.mem_range'_1]
  constructor
  · -- a length within the bounds gives the prefix of that length
    rintro ⟨k, ⟨hlo, hk⟩, rfl⟩
    have hreach : k ≤ reach p hi s := by omega
    obtain ⟨htw, hhi⟩ := le_reach_iff.mp hreach
    obtain ⟨hlen, hall⟩ := le_length_takeWhile_iff.mp htw
    have htake : (s.take k).length = k := List.length_take_of_le hlen
    exact ⟨s.take k, s.drop k, (List.take_append_drop k s).symm, hall,
      htake.symm ▸ hlo, fun h hh => htake.symm ▸ hhi h hh, rfl⟩
  · -- a prefix in the class has a length within the bounds
    rintro ⟨xs, t, rfl, hall, hlo, hhi, rfl⟩
    have htw : xs.length ≤ ((xs ++ t).takeWhile p).length :=
      le_length_takeWhile_iff.mpr ⟨by simp, by simpa using hall⟩
    have hreach : xs.length ≤ reach p hi (xs ++ t) := le_reach_iff.mpr ⟨htw, hhi⟩
    exact ⟨xs.length, ⟨hlo, by omega⟩, by simp⟩

/-! ## Which match comes first -/

theorem first_set {p : α → Bool} {c : α} (h : p c = true) (s : List α) :
    (set p).first (c :: s) = some ⟨[c], s, []⟩ := by
  simp [first, successes, h]

/-- A class repetition takes the longest run it can, provided this is long enough. -/
theorem first_many {p : α → Bool} {lo : Nat} {hi : Option Nat} {s : List α}
    (h : lo ≤ reach p hi s) :
    (many p lo hi).first s = some ⟨s.take (reach p hi s), s.drop (reach p hi s), []⟩ := by
  obtain ⟨n, hn⟩ : ∃ n, reach p hi s + 1 - lo = n + 1 := ⟨reach p hi s - lo, by omega⟩
  have hlast : lo + n = reach p hi s := by omega
  -- the greatest length is the last of the range, and the reversal brings it to the front
  rw [first, successes, hn, List.range'_concat, List.reverse_append]
  simp [hlast]

/-- Once a prefix is matched and the remainder has a match, no backtracking happens. -/
theorem first_seq {r t : Regex α} {s : List α} {m n : Success α}
    (hm : r.first s = some m) (hn : t.first m.rest = some n) :
    (seq r t).first s = some (m.append n) := by
  rw [first, List.head?_eq_some_iff] at hm hn
  obtain ⟨ms, hms⟩ := hm
  obtain ⟨ns, hns⟩ := hn
  rw [first, successes, hms, List.flatMap_cons, hns]
  rfl

theorem first_group {i : Nat} {r : Regex α} {s : List α} {m : Success α}
    (hm : r.first s = some m) :
    (group i r).first s = some { m with groups := (i, m.consumed) :: m.groups } := by
  rw [first] at hm ⊢
  rw [successes, List.head?_map, hm]
  rfl

theorem first_opt_of_first {r : Regex α} {s : List α} {m : Success α} (hm : r.first s = some m) :
    (opt r).first s = some m := by
  rw [first] at hm ⊢
  rw [successes, List.head?_append, hm]
  rfl

/-- An optional part is skipped only when it has no match. -/
theorem first_opt_of_fail {r : Regex α} {s : List α} (hr : r.successes s = []) :
    (opt r).first s = some ⟨[], s, []⟩ := by
  rw [first, successes, hr]
  rfl

theorem successes_set_of_fail {p : α → Bool} {s : List α} (h : ∀ c t, s = c :: t → p c = false) :
    (set p).successes s = [] := by
  cases s with
  | nil => rfl
  | cons c t => simp [successes, h c t rfl]

theorem successes_many_of_fail {p : α → Bool} {lo : Nat} {hi : Option Nat} {s : List α}
    (h : reach p hi s < lo) : (many p lo hi).successes s = [] := by
  have hzero : reach p hi s + 1 - lo = 0 := by omega
  rw [successes, hzero]
  rfl

theorem successes_group_of_fail {i : Nat} {r : Regex α} {s : List α} (h : r.successes s = []) :
    (group i r).successes s = [] := by
  rw [successes, h]
  rfl

theorem successes_seq_of_fail {r t : Regex α} {s : List α} (h : r.successes s = []) :
    (seq r t).successes s = [] := by
  rw [successes, h]
  rfl

/-- A match at the first position is the one a search reports. -/
theorem search_of_first {r : Regex α} {s : List α} {m : Success α} (h : r.first s = some m) :
    r.search s = some m := by
  cases s with
  | nil => exact h
  | cons c s => rw [search, h]

/-! ## Longest runs -/

/-- A run that nothing in the class follows is as far as the class reaches. -/
theorem reach_append_of_stop {p : α → Bool} {hi : Option Nat} {xs ys : List α}
    (hxs : ∀ c ∈ xs, p c = true) (hys : ∀ c t, ys = c :: t → p c = false)
    (hhi : ∀ h ∈ hi, xs.length ≤ h) : reach p hi (xs ++ ys) = xs.length := by
  have htw : (xs ++ ys).takeWhile p = xs := by
    rw [List.takeWhile_append_of_pos hxs]
    cases ys with
    | nil => simp
    | cons c t => simp [hys c t rfl]
  cases hi with
  | none => rw [reach, htw]
  | some h =>
    have hle : xs.length ≤ h := hhi h rfl
    simp only [reach, htw]
    omega

theorem first_many_append {p : α → Bool} {lo : Nat} {hi : Option Nat} {xs ys : List α}
    (hxs : ∀ c ∈ xs, p c = true) (hys : ∀ c t, ys = c :: t → p c = false)
    (hlo : lo ≤ xs.length) (hhi : ∀ h ∈ hi, xs.length ≤ h) :
    (many p lo hi).first (xs ++ ys) = some ⟨xs, ys, []⟩ := by
  have hreach := reach_append_of_stop hxs hys hhi
  rw [first_many (hreach ▸ hlo), hreach]
  simp

/-! ## Optional groups -/

/-- The captures of an optional group that is only present when it captures something. -/
def optionalGroup (i : Nat) (xs : List α) : List (Nat × List α) :=
  if xs.isEmpty then [] else [(i, xs)]

/-- An optional non-empty run of a class, captured as a group: greedy choice. -/
theorem first_opt_group_many {p : α → Bool} {hi : Option Nat} {xs ys : List α} (i : Nat)
    (hxs : ∀ c ∈ xs, p c = true) (hys : ∀ c t, ys = c :: t → p c = false)
    (hhi : ∀ h ∈ hi, xs.length ≤ h) :
    (opt (group i (many p 1 hi))).first (xs ++ ys) = some ⟨xs, ys, optionalGroup i xs⟩ := by
  cases hx : xs with
  | nil =>
    -- the repetition needs a symbol and finds none, so the group is left out
    subst hx
    have hreach : reach p hi ([] ++ ys) = 0 := reach_append_of_stop hxs hys hhi
    exact first_opt_of_fail
      (successes_group_of_fail (successes_many_of_fail (by rw [hreach]; exact Nat.one_pos)))
  | cons c xs' =>
    rw [← hx]
    have hlo : 1 ≤ xs.length := by simp [hx]
    have hne : xs.isEmpty = false := by simp [hx]
    have hfirst := first_group (i := i) (first_many_append hxs hys hlo hhi)
    rw [first_opt_of_first hfirst, optionalGroup, hne]
    rfl

/-- All ways to match an optional non-empty run of a class, captured as a group. -/
theorem mem_successes_opt_group_many {p : α → Bool} {hi : Option Nat} {i : Nat} {s : List α}
    {m : Success α} (h : m ∈ (opt (group i (many p 1 hi))).successes s) :
    ∃ xs ys, (∀ c ∈ xs, p c = true) ∧ (∀ h ∈ hi, xs.length ≤ h) ∧
      m = ⟨xs, ys, optionalGroup i xs⟩ := by
  rw [mem_successes_opt, mem_successes_group] at h
  rcases h with ⟨m₁, hm₁, rfl⟩ | rfl
  · -- present: at least one symbol was taken
    obtain ⟨xs, ys, _, hall, hlo, hhi, rfl⟩ := mem_successes_many.mp hm₁
    have hne : xs.isEmpty = false := by
      cases xs with
      | nil => simp at hlo
      | cons _ _ => rfl
    exact ⟨xs, ys, hall, hhi, by simp [optionalGroup, hne]⟩
  · exact ⟨[], s, by simp, by simp, by simp [optionalGroup]⟩

theorem lookup_optionalGroup_append_self {i : Nat} {xs : List α} {gs : List (Nat × List α)}
    (h : gs.lookup i = none) : ((optionalGroup i xs ++ gs).lookup i).getD [] = xs := by
  cases xs with
  | nil => simp [optionalGroup, h]
  | cons c xs => simp [optionalGroup]

theorem lookup_optionalGroup_append_of_ne {i j : Nat} (hij : j ≠ i) (xs : List α)
    (gs : List (Nat × List α)) : (optionalGroup i xs ++ gs).lookup j = gs.lookup j := by
  cases xs with
  | nil => rfl
  | cons c xs => simp [optionalGroup, List.lookup_cons, beq_eq_false_iff_ne.mpr hij]

end Regex

end Httb.Foundation
