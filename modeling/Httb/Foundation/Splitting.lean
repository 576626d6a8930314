import Mathlib.Data.List.TakeWhile

/-!
# Cutting Lists at a Delimiter

What the pieces of a list cut at a delimiter contain, and how the cut at the *first*
delimiter undoes putting two lists together with the delimiter between them.

## Main facts

- `delimiter_not_mem_of_mem_splitOn`: a piece never holds the delimiter
- `mem_of_mem_splitOn`, `mem_intercalate`: where the elements of pieces and of joined lists
  come from
- `segments_append_cons`: a delimiter separates the segments of what stands on its two sides
- `pair_infix_append_cons`: where two delimiters can meet in a list that is put together
- `cutFirst_append_cons`: cutting at the first delimiter takes a joined pair apart
-/

namespace Httb.Foundation

variable {α : Type*} [DecidableEq α] {d : α}

/-! ## All delimiters -/

theorem delimiter_not_mem_of_mem_splitOn {xs l : List α} (h : l ∈ xs.splitOn d) : d ∉ l := by
  induction xs generalizing l with
  | nil =>
    rw [List.splitOn_nil, List.mem_singleton] at h
    simp [h]
  | cons x xs ih =>
    rw [List.splitOn_cons_eq_if_modifyHead] at h
    split at h
    · rcases List.mem_cons.mp h with rfl | h
      · simp
      · exact ih h
    · rename_i hx
      -- only the first piece grows, and by an element that is no delimiter
      obtain ⟨l₀, ls, hpieces⟩ := List.exists_cons_of_ne_nil (List.splitOn_ne_nil d xs)
      rw [hpieces] at ih h
      rcases List.mem_cons.mp h with rfl | h
      · intro hd
        rcases List.mem_cons.mp hd with rfl | hd
        · simp at hx
        · exact ih List.mem_cons_self hd
      · exact ih (List.mem_cons_of_mem _ h)

omit [DecidableEq α] in
theorem mem_intercalate {a : α} {sep : List α} {ls : List (List α)}
    (h : a ∈ sep.intercalate ls) : a ∈ sep ∨ ∃ l ∈ ls, a ∈ l := by
  induction ls with
  | nil => simp at h
  | cons l ls ih =>
    cases ls with
    | nil => exact .inr ⟨l, List.mem_singleton_self l, by simpa using h⟩
    | cons l' ls =>
      rw [List.intercalate_cons_cons, List.mem_append, List.mem_append] at h
      rcases h with (h | h) | h
      · exact .inr ⟨l, List.mem_cons_self, h⟩
      · exact .inl h
      · exact (ih h).imp_right fun ⟨x, hx, ha⟩ => ⟨x, List.mem_cons_of_mem _ hx, ha⟩

omit [DecidableEq α] in
theorem mem_intercalate_of_mem {a : α} {sep l : List α} {ls : List (List α)} (hl : l ∈ ls)
    (ha : a ∈ l) : a ∈ sep.intercalate ls := by
  induction ls with
  | nil => simp at hl
  | cons l₀ ls ih =>
    cases ls with
    | nil =>
      obtain rfl := List.mem_singleton.mp hl
      simpa using ha
    | cons l₁ ls =>
      rw [List.intercalate_cons_cons, List.mem_append, List.mem_append]
      rcases List.mem_cons.mp hl with rfl | hl
      · exact .inl (.inl ha)
      · exact .inr (ih hl)

theorem mem_of_mem_splitOn {a : α} {xs l : List α} (hl : l ∈ xs.splitOn d) (ha : a ∈ l) :
    a ∈ xs := by
  have hjoined : [d].intercalate (xs.splitOn d) = xs := List.intercalate_splitOn d
  rw [← hjoined]
  exact mem_intercalate_of_mem hl ha

omit [DecidableEq α] in
theorem suffix_intercalate_concat (sep : List α) (ls : List (List α)) (l : List α) :
    l <:+ sep.intercalate (ls ++ [l]) := by
  induction ls with
  | nil => simp
  | cons l₀ ls ih =>
    obtain ⟨l₁, rest, hls⟩ := List.exists_cons_of_ne_nil (List.append_ne_nil_of_right_ne_nil ls
      (List.cons_ne_nil l []))
    rw [hls] at ih
    rw [List.cons_append, hls, List.intercalate_cons_cons]
    exact ih.trans (List.suffix_append _ _)

omit [DecidableEq α] in
theorem append_intercalate (sep : List α) {ls : List (List α)} (h : ls ≠ []) :
    sep ++ sep.intercalate ls = ls.flatMap fun l => sep ++ l := by
  induction ls with
  | nil => exact absurd rfl h
  | cons l ls ih =>
    cases ls with
    | nil => simp
    | cons l' ls =>
      rw [List.intercalate_cons_cons, List.flatMap_cons, ← ih (List.cons_ne_nil l' ls)]
      simp only [List.append_assoc]

omit [DecidableEq α] in
/-- What follows the last delimiter of a list is the end of what follows any of them. -/
theorem suffix_of_last_delimiter {xs last rest : List α} (h : last <:+ xs) (hd : d ∉ last)
    (hrest : d :: rest <:+ xs) : last <:+ rest := by
  have htail : rest <:+ xs := (List.suffix_cons d rest).trans hrest
  rcases Nat.lt_or_ge rest.length last.length with hlength | hlength
  · -- a longer list would hold that delimiter
    have hmem := (List.suffix_of_suffix_length_le hrest h hlength).subset List.mem_cons_self
    exact absurd hmem hd
  · exact List.suffix_of_suffix_length_le h htail hlength

/-! ## Segments -/

/-- The pieces between delimiters that are not empty. -/
def segments (d : α) (xs : List α) : List (List α) := (xs.splitOn d).filter fun l => !l.isEmpty

@[simp] theorem segments_nil : segments d [] = [] := by simp [segments]

/-- A delimiter separates the segments on its two sides. -/
theorem segments_append_cons (xs ys : List α) :
    segments d (xs ++ d :: ys) = segments d xs ++ segments d ys := by
  rw [segments, List.splitOn_append_cons_self, List.filter_append, segments, segments]

@[simp] theorem segments_cons_self (ys : List α) : segments d (d :: ys) = segments d ys := by
  simpa using segments_append_cons (d := d) [] ys

@[simp] theorem segments_concat_self (xs : List α) : segments d (xs ++ [d]) = segments d xs := by
  simpa using segments_append_cons (d := d) xs []

omit [DecidableEq α] in
/-- Two delimiters in a row stand on one side of a delimiter, or it is one of them. -/
theorem pair_infix_append_cons {xs ys : List α} (h : [d, d] <:+: xs ++ d :: ys) :
    [d, d] <:+: xs ∨ xs.getLast? = some d ∨ ys.head? = some d ∨ [d, d] <:+: ys := by
  induction xs with
  | nil =>
    rw [List.nil_append, List.infix_cons_iff] at h
    rcases h with h | h
    · -- the delimiter is the first of the two
      rw [List.cons_prefix_cons] at h
      obtain ⟨t, rfl⟩ := h.2
      exact .inr (.inr (.inl rfl))
    · exact .inr (.inr (.inr h))
  | cons x xs ih =>
    rw [List.cons_append, List.infix_cons_iff] at h
    rcases h with h | h
    · rw [List.cons_prefix_cons] at h
      obtain ⟨rfl, h⟩ := h
      cases xs with
      | nil => exact .inr (.inl rfl)
      | cons y xs =>
        rw [List.cons_append, List.cons_prefix_cons] at h
        exact .inl ⟨[], xs, by rw [h.1]; rfl⟩
    · rcases ih h with h | h | h
      · exact .inl (h.trans (List.suffix_cons x xs).isInfix)
      · refine .inr (.inl ?_)
        cases xs with
        | nil => cases h
        | cons y xs => rwa [List.getLast?_cons_cons]
      · exact .inr (.inr h)

/-! ## The first delimiter -/

/-- What stands before the first delimiter, and what stands after it. -/
def cutFirst (d : α) (xs : List α) : List α × List α :=
  (xs.takeWhile (· != d), (xs.dropWhile (· != d)).drop 1)

theorem delimiter_not_mem_cutFirst (xs : List α) : d ∉ (cutFirst d xs).1 := fun h => by
  simpa using List.mem_takeWhile_imp h

theorem mem_of_mem_cutFirst {a : α} {xs : List α}
    (h : a ∈ (cutFirst d xs).1 ∨ a ∈ (cutFirst d xs).2) : a ∈ xs := by
  rcases h with h | h
  · exact (List.takeWhile_sublist _).subset h
  · exact (List.dropWhile_sublist _).subset (List.mem_of_mem_drop h)

theorem cutFirst_cons_of_ne {x : α} (h : x ≠ d) (xs : List α) :
    cutFirst d (x :: xs) = (x :: (cutFirst d xs).1, (cutFirst d xs).2) := by
  simp [cutFirst, h]

/-- What was cut at a delimiter is put together with one. -/
theorem cutFirst_join {xs : List α} (h : d ∈ xs) :
    (cutFirst d xs).1 ++ d :: (cutFirst d xs).2 = xs := by
  induction xs with
  | nil => cases h
  | cons x xs ih =>
    by_cases hx : x = d
    · simp [cutFirst, hx]
    · have hrest := ih ((List.mem_cons.mp h).resolve_left (Ne.symm hx))
      rw [cutFirst_cons_of_ne hx, List.cons_append, hrest]

theorem cutFirst_append_cons {key : List α} (h : d ∉ key) (value : List α) :
    cutFirst d (key ++ d :: value) = (key, value) := by
  have hkey : ∀ a ∈ key, (a != d) = true := fun a ha => by
    rw [bne_iff_ne]
    rintro rfl
    exact h ha
  rw [cutFirst, List.takeWhile_append_of_pos hkey, List.dropWhile_append_of_pos hkey]
  simp

end Httb.Foundation
