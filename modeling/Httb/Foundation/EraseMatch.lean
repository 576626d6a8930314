import Mathlib.Data.List.Basic
import Mathlib.Logic.Function.Iterate

/-!
# Deleting the n-th Match

`eraseMatch p n l` deletes the `n`-th element of `l` that satisfies `p` (counting from
zero) and keeps everything else in place; without an `n`-th match it changes nothing.
-/

namespace Httb.Foundation

variable {α : Type*} {p : α → Bool}

/-- Delete the `n`-th element that satisfies `p`. -/
def eraseMatch (p : α → Bool) : ℕ → List α → List α
  | _, [] => []
  | n, a :: l =>
      if p a then
        match n with
        | 0 => l
        -- a match that is passed over uses up one of the count
        | n + 1 => a :: eraseMatch p n l
      else a :: eraseMatch p n l

@[simp] theorem eraseMatch_nil (n : ℕ) : eraseMatch p n [] = [] := by
  cases n <;> rfl

theorem eraseMatch_cons_of_neg {a : α} (h : p a = false) (n : ℕ) (l : List α) :
    eraseMatch p n (a :: l) = a :: eraseMatch p n l := by
  cases n <;> simp [eraseMatch, h]

theorem eraseMatch_zero_cons {a : α} (h : p a = true) (l : List α) :
    eraseMatch p 0 (a :: l) = l := by
  simp [eraseMatch, h]

theorem eraseMatch_succ_cons {a : α} (h : p a = true) (n : ℕ) (l : List α) :
    eraseMatch p (n + 1) (a :: l) = a :: eraseMatch p n l := by
  simp [eraseMatch, h]

/-- An existing match is cut out; what stands before and after it stays. -/
theorem eraseMatch_split {n : ℕ} {l : List α} (h : n < (l.filter p).length) :
    ∃ pre post, l = pre ++ (l.filter p)[n] :: post ∧ (pre.filter p).length = n ∧
      eraseMatch p n l = pre ++ post := by
  induction l generalizing n with
  | nil => simp at h
  | cons a l ih =>
    by_cases ha : p a = true
    · cases n with
      | zero => exact ⟨[], l, by simp [ha], rfl, eraseMatch_zero_cons ha l⟩
      | succ n =>
        have h' : n < (l.filter p).length := by simpa [ha] using h
        obtain ⟨pre, post, hl, hn, he⟩ := ih h'
        -- `a` joins what stands before, as one more match
        refine ⟨a :: pre, post, ?_, by simp [ha, hn], ?_⟩
        · simpa [ha] using hl
        · rw [eraseMatch_succ_cons ha, he, List.cons_append]
    · have h' : n < (l.filter p).length := by simpa [ha] using h
      obtain ⟨pre, post, hl, hn, he⟩ := ih h'
      refine ⟨a :: pre, post, ?_, by simp [ha, hn], ?_⟩
      · simpa [ha] using hl
      · rw [eraseMatch_cons_of_neg (by simpa using ha), he, List.cons_append]

/-- Beyond the last match nothing happens. -/
theorem eraseMatch_of_length_le {n : ℕ} {l : List α} (h : (l.filter p).length ≤ n) :
    eraseMatch p n l = l := by
  induction l generalizing n with
  | nil => simp
  | cons a l ih =>
    by_cases ha : p a = true
    · cases n with
      | zero => simp [ha] at h
      | succ n => rw [eraseMatch_succ_cons ha, ih (by simpa [ha] using h)]
    · rw [eraseMatch_cons_of_neg (by simpa using ha), ih (by simpa [ha] using h)]

/-- What is left was there. -/
theorem eraseMatch_sublist (n : ℕ) (l : List α) : (eraseMatch p n l).Sublist l := by
  by_cases h : n < (l.filter p).length
  · obtain ⟨pre, post, hl, -, he⟩ := eraseMatch_split h
    rw [he]
    conv_rhs => rw [hl]
    exact (List.sublist_cons_self _ _).append_left pre
  · rw [eraseMatch_of_length_le (Nat.le_of_not_lt h)]

/-- Deleting the first match as often as there are matches leaves the other elements. -/
theorem iterate_eraseMatch_zero (l : List α) :
    (eraseMatch p 0)^[(l.filter p).length] l = l.filter fun a => !p a := by
  induction l with
  | nil => rfl
  | cons a l ih =>
    by_cases ha : p a = true
    · -- the first round takes `a` itself, the others work on `l`
      simp only [List.filter_cons_of_pos ha, List.length_cons, Function.iterate_succ_apply]
      rw [eraseMatch_zero_cons ha, ih, List.filter_cons_of_neg (by simp [ha])]
    · -- no round touches `a`
      have hskip : ∀ k, (eraseMatch p 0)^[k] (a :: l) = a :: (eraseMatch p 0)^[k] l := by
        intro k
        induction k with
        | zero => rfl
        | succ k ihk =>
          rw [Function.iterate_succ_apply', ihk, Function.iterate_succ_apply',
            eraseMatch_cons_of_neg (by simpa using ha)]
      rw [List.filter_cons_of_neg ha, hskip, ih, List.filter_cons_of_pos (by simpa using ha)]

end Httb.Foundation
