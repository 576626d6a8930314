import Mathlib.Data.List.Infix

/-!
# Cutting Lists at a Word

A list is cut at the occurrences of a word, from left to right. When the first letter of the
word does not occur in it again, the word cannot overlap itself, and cutting undoes putting
pieces together behind the word.

## Main facts

- `not_prefix_append_word`: such a word begins nowhere in a piece that stands before it
- `splitWord_flatMap`: pieces that do not hold the word are recovered
-/

namespace Httb.Foundation

variable {α : Type*} {d : α} {v : List α}

/-! ## Occurrences -/

/-- An occurrence begins behind the elements that the word does not begin with. -/
theorem infix_of_infix_append {line rest : List α} (hd : d ∉ line)
    (h : d :: v <:+: line ++ rest) : d :: v <:+: rest := by
  induction line with
  | nil => exact h
  | cons x line ih =>
    rw [List.mem_cons, not_or] at hd
    rw [List.cons_append, List.infix_cons_iff, List.cons_prefix_cons] at h
    rcases h with ⟨hx, -⟩ | h
    · exact absurd hx hd.1
    · exact ih hd.2 h

/-- A word whose first letter is its own does not begin in a piece that stands before it,
unless the piece holds it. -/
theorem not_prefix_append_word (hd : d ∉ v) {piece rest : List α} (hne : piece ≠ [])
    (hpiece : ¬ d :: v <+: piece) : ¬ d :: v <+: piece ++ (d :: v ++ rest) := by
  rintro ⟨tail, h⟩
  rcases List.append_eq_append_iff.mp h with ⟨cs, hcs, -⟩ | ⟨cs, hcs, hrest⟩
  · -- the occurrence would end within the piece
    exact hpiece ⟨cs, hcs.symm⟩
  · -- or else the second occurrence begins within the first
    obtain ⟨x, piece, rfl⟩ := List.exists_cons_of_ne_nil hne
    cases cs with
    | nil =>
      apply hpiece
      rw [hcs, List.append_nil]
    | cons c cs =>
      rw [List.cons_append, List.cons_append, List.cons.injEq] at hrest
      rw [List.cons_append, List.cons.injEq] at hcs
      apply hd
      rw [hcs.2, hrest.1]
      exact List.mem_append_right _ List.mem_cons_self

/-! ## Cutting -/

variable [DecidableEq α]

/-- Cut at the occurrences of the word; `skip` letters of one are still to be passed. -/
def splitWordFrom (w : List α) : (skip : ℕ) → List α → List (List α)
  | _, [] => [[]]
  | skip + 1, _ :: xs => splitWordFrom w skip xs
  | 0, x :: xs =>
    if w.isPrefixOf (x :: xs) then [] :: splitWordFrom w (w.length - 1) xs
    else (splitWordFrom w 0 xs).modifyHead (x :: ·)

/-- The pieces between the occurrences of the word. -/
def splitWord (w xs : List α) : List (List α) := splitWordFrom w 0 xs

theorem splitWordFrom_append (w ys zs : List α) :
    splitWordFrom w ys.length (ys ++ zs) = splitWord w zs := by
  induction ys with
  | nil => rfl
  | cons y ys ih => exact ih

/-- At an occurrence a piece ends. -/
theorem splitWord_word_append (d : α) (v rest : List α) :
    splitWord (d :: v) (d :: v ++ rest) = [] :: splitWord (d :: v) rest := by
  have hbegins : (d :: v).isPrefixOf (d :: (v ++ rest)) = true :=
    List.isPrefixOf_iff_prefix.mpr (List.prefix_append (d :: v) rest)
  rw [splitWord, List.cons_append, splitWordFrom, if_pos hbegins]
  exact congrArg ([] :: ·) (splitWordFrom_append (d :: v) v rest)

theorem splitWord_cons {w : List α} {x : α} {xs : List α} (h : ¬ w <+: x :: xs) :
    splitWord w (x :: xs) = (splitWord w xs).modifyHead (x :: ·) := by
  have hbegins : ¬ w.isPrefixOf (x :: xs) = true := fun hp => h (List.isPrefixOf_iff_prefix.mp hp)
  rw [splitWord, splitWordFrom, if_neg hbegins, splitWord]

/-- A list without the word is one piece. -/
theorem splitWord_of_not_infix {w xs : List α} (h : ¬ w <:+: xs) : splitWord w xs = [xs] := by
  induction xs with
  | nil => rfl
  | cons x xs ih =>
    rw [List.infix_cons_iff, not_or] at h
    rw [splitWord_cons h.1, ih h.2]
    rfl

/-- A piece without the word is cut off where the word begins behind it. -/
theorem splitWord_append_word (hd : d ∉ v) {piece : List α} (hpiece : ¬ d :: v <:+: piece)
    (rest : List α) :
    splitWord (d :: v) (piece ++ (d :: v ++ rest)) = piece :: splitWord (d :: v) rest := by
  induction piece with
  | nil => exact splitWord_word_append d v rest
  | cons x piece ih =>
    have hnot : ¬ d :: v <+: x :: piece ++ (d :: v ++ rest) :=
      not_prefix_append_word hd (List.cons_ne_nil x piece) fun h => hpiece h.isInfix
    rw [List.infix_cons_iff, not_or] at hpiece
    rw [List.cons_append] at hnot ⊢
    rw [splitWord_cons hnot, ih hpiece.2]
    rfl

/-- **Pieces behind a word are recovered.** -/
theorem splitWord_flatMap (hd : d ∉ v) {first : List α} (hfirst : ¬ d :: v <:+: first)
    {pieces : List (List α)} (h : ∀ piece ∈ pieces, ¬ d :: v <:+: piece) :
    splitWord (d :: v) (first ++ pieces.flatMap fun piece => d :: v ++ piece) =
      first :: pieces := by
  induction pieces generalizing first with
  | nil =>
    rw [List.flatMap_nil, List.append_nil]
    exact splitWord_of_not_infix hfirst
  | cons piece pieces ih =>
    obtain ⟨hpiece, hpieces⟩ := List.forall_mem_cons.mp h
    rw [List.flatMap_cons, List.append_assoc, splitWord_append_word hd hfirst, ih hpiece hpieces]

end Httb.Foundation
