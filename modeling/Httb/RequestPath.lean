import Httb.BaseRequest

/-!
# The Path of a Request

`set_path` and `add_path` (`src/request.cpp`). `add_path` has a branch for every way in which
the stored path and its argument can meet; in all of them it leaves one slash between the two.
What is between the slashes is never touched, so the segments of a path that was put together
by many calls are those of the arguments, in order.

## Key Results

- `addPath_of_ne`: what `add_path` does, without its branches
- `addPath_appends`: its effect on segments, on a slash at the end and on repeated slashes
-/

namespace Httb

open Httb.Foundation

/-! ## Slashes at the ends -/

/-- The path without a slash at its start. -/
def withoutFirstSlash (path : Str) : Str := if path.head? = some '/' then path.drop 1 else path

/-- The path without a slash at its end. -/
def withoutLastSlash (path : Str) : Str :=
  if path.getLast? = some '/' then path.dropLast else path

theorem withoutFirstSlash_cases (path : Str) :
    path = '/' :: withoutFirstSlash path ∨
      path.head? ≠ some '/' ∧ withoutFirstSlash path = path := by
  rw [withoutFirstSlash]
  split
  · rename_i h
    obtain ⟨rest, rfl⟩ := List.head?_eq_some_iff.mp h
    exact .inl rfl
  · rename_i h
    exact .inr ⟨h, rfl⟩

theorem withoutLastSlash_cases (path : Str) :
    path = withoutLastSlash path ++ ['/'] ∨
      path.getLast? ≠ some '/' ∧ withoutLastSlash path = path := by
  rw [withoutLastSlash]
  split
  · rename_i h
    obtain ⟨before, rfl⟩ := List.getLast?_eq_some_iff.mp h
    exact .inl (by rw [List.dropLast_concat])
  · rename_i h
    exact .inr ⟨h, rfl⟩

theorem suffix_withoutFirstSlash (path : Str) : withoutFirstSlash path <:+ path := by
  rw [withoutFirstSlash]
  split
  · exact List.drop_suffix 1 path
  · exact List.suffix_rfl

theorem prefix_withoutLastSlash (path : Str) : withoutLastSlash path <+: path := by
  rw [withoutLastSlash]
  split
  · exact List.dropLast_prefix path
  · exact List.prefix_rfl

@[simp] theorem segments_withoutFirstSlash (path : Str) :
    segments '/' (withoutFirstSlash path) = segments '/' path := by
  rcases withoutFirstSlash_cases path with h | ⟨-, h⟩
  · conv_rhs => rw [h]
    rw [segments_cons_self]
  · rw [h]

@[simp] theorem segments_withoutLastSlash (path : Str) :
    segments '/' (withoutLastSlash path) = segments '/' path := by
  rcases withoutLastSlash_cases path with h | ⟨-, h⟩
  · conv_rhs => rw [h]
    rw [segments_concat_self]
  · rw [h]

namespace BaseRequest

/-! ## set_path -/

/-- `set_path` stores its argument; a longer one that has no slash gets one. -/
theorem setPath_eq (r : BaseRequest) (path : Str) :
    r.setPath path =
      { r with path := if path.length > 1 ∧ path.head? ≠ some '/' then '/' :: path else path } := by
  unfold setPath
  split_ifs <;> rfl

/-! ## add_path -/

/-- The arguments that `add_path` ignores. -/
theorem addPath_of_eq (r : BaseRequest) {path : Str} (h : path = [] ∨ path = "/".toList) :
    r.addPath path = r := by
  rcases h with rfl | rfl <;> rfl

/-- **What `add_path` does**: the two paths meet in one slash, whether the first one ends in
one, is empty, or does not, and whether the second one begins with one or does not. -/
theorem addPath_of_ne (r : BaseRequest) {path : Str} (hne : path ≠ [])
    (hslash : path ≠ "/".toList) :
    r.addPath path =
      { r with path := withoutLastSlash r.path ++ '/' :: withoutFirstSlash path } := by
  have hlong : ¬ (path.length = 0 ∨ path.length = 1 ∧ path.head? = some '/') := by
    rintro (h | ⟨hlength, hhead⟩)
    · exact hne (List.length_eq_zero_iff.mp h)
    · obtain ⟨c, rfl⟩ := List.length_eq_one_iff.mp hlength
      exact hslash (by simpa using hhead)
  -- an empty path is made a slash, which is taken away again
  obtain ⟨base, hr, hbase⟩ : ∃ base,
      (if r.path.length = 0 then { r with path := "/".toList } else r) = { r with path := base } ∧
        withoutLastSlash base = withoutLastSlash r.path := by
    split
    · rename_i hempty
      refine ⟨"/".toList, rfl, ?_⟩
      rw [List.length_eq_zero_iff.mp hempty]
      rfl
    · exact ⟨r.path, rfl, rfl⟩
  rw [addPath, if_neg hlong, hr, ← hbase]
  dsimp only
  rcases withoutFirstSlash_cases path with hfirst | ⟨hfirst, hsame⟩
  · have hhead : path.head? = some '/' := by rw [hfirst]; rfl
    rw [if_pos hhead]
    rcases withoutLastSlash_cases base with hlast | ⟨hlast, hkept⟩
    · have hend : base.getLast? = some '/' := by rw [hlast]; exact List.getLast?_concat
      rw [if_pos hend]
      conv_lhs => rw [hfirst, hlast]
      simp
    · rw [if_neg hlast, hkept, ← hfirst]
  · rw [if_neg hfirst, hsame]
    rcases withoutLastSlash_cases base with hlast | ⟨hlast, hkept⟩
    · have hend : base.getLast? = some '/' := by rw [hlast]; exact List.getLast?_concat
      rw [if_neg (not_not.mpr hend)]
      conv_lhs => rw [hlast]
      simp
    · rw [if_pos hlast, hkept]

/-- `add_path` writes nothing but the path. -/
theorem exists_path_addPath (r : BaseRequest) (path : Str) :
    ∃ path', r.addPath path = { r with path := path' } := by
  by_cases h : path = [] ∨ path = "/".toList
  · exact ⟨r.path, addPath_of_eq r h⟩
  · rw [not_or] at h
    exact ⟨_, addPath_of_ne r h.1 h.2⟩

@[simp] theorem params_setPath (r : BaseRequest) (path : Str) :
    (r.setPath path).params = r.params := by
  rw [setPath_eq]

@[simp] theorem params_addPath (r : BaseRequest) (path : Str) :
    (r.addPath path).params = r.params := by
  obtain ⟨path', h⟩ := exists_path_addPath r path
  rw [h]

/-! ## Segments -/

theorem segments_addPath (r : BaseRequest) (path : Str) :
    segments '/' (r.addPath path).path = segments '/' r.path ++ segments '/' path := by
  by_cases h : path = [] ∨ path = "/".toList
  · have hnone : segments '/' path = [] := by rcases h with rfl | rfl <;> decide
    rw [addPath_of_eq r h, hnone, List.append_nil]
  · rw [not_or] at h
    rw [addPath_of_ne r h.1 h.2]
    simp [segments_append_cons]

theorem segments_foldl_addPath (r : BaseRequest) (paths : List Str) :
    segments '/' (paths.foldl addPath r).path =
      segments '/' r.path ++ paths.flatMap (segments '/') := by
  induction paths generalizing r with
  | nil => simp
  | cons path paths ih =>
    rw [List.foldl_cons, ih, segments_addPath, List.flatMap_cons, List.append_assoc]

/-- What a path with a segment ends in, the result ends in. -/
theorem getLast?_addPath (r : BaseRequest) {path : Str} (h : segments '/' path ≠ []) :
    (r.addPath path).path.getLast? = path.getLast? := by
  have hne : path ≠ [] := by
    rintro rfl
    exact h segments_nil
  have hslash : path ≠ "/".toList := by
    rintro rfl
    exact h (by decide)
  rw [addPath_of_ne r hne hslash]
  dsimp only
  rw [List.getLast?_append_of_ne_nil _ (List.cons_ne_nil _ _)]
  rcases withoutFirstSlash_cases path with hfirst | ⟨-, hsame⟩
  · rw [← hfirst]
  · rw [hsame]
    obtain ⟨c, rest, rfl⟩ := List.exists_cons_of_ne_nil hne
    exact List.getLast?_cons_cons

/-- No slashes are doubled. -/
theorem not_doubled_addPath {r : BaseRequest} {path : Str} (hbase : ¬ "//".toList <:+: r.path)
    (hpath : ¬ "//".toList <:+: path) : ¬ "//".toList <:+: (r.addPath path).path := by
  by_cases h : path = [] ∨ path = "/".toList
  · rwa [addPath_of_eq r h]
  · rw [not_or] at h
    rw [addPath_of_ne r h.1 h.2]
    intro hdouble
    have hpair : ['/', '/'] <:+: withoutLastSlash r.path ++ '/' :: withoutFirstSlash path := hdouble
    rcases pair_infix_append_cons hpair with hd | hd | hd | hd
    · exact hbase (hd.trans (prefix_withoutLastSlash r.path).isInfix)
    · -- a path that ends in a slash without its last one ended in two
      obtain ⟨before, hbefore⟩ := List.getLast?_eq_some_iff.mp hd
      rcases withoutLastSlash_cases r.path with hlast | ⟨hlast, hsame⟩
      · rw [hbefore] at hlast
        exact hbase ⟨before, [], by rw [hlast]; simp⟩
      · rw [hsame] at hd
        exact hlast hd
    · obtain ⟨rest, hrest⟩ := List.head?_eq_some_iff.mp hd
      rcases withoutFirstSlash_cases path with hfirst | ⟨hfirst, hsame⟩
      · rw [hrest] at hfirst
        exact hpath ⟨[], rest, by rw [hfirst]; rfl⟩
      · rw [hsame] at hd
        exact hfirst hd
    · exact hpath (hd.trans (suffix_withoutFirstSlash path).isInfix)

/-- **`add_path` appends segments.** The segments of the result are those of the path and then
those of the argument; a slash at the end of an argument with a segment stays there; no
slashes are doubled that were not; and so the segments that many calls leave are those of all
arguments in order. -/
theorem addPath_appends (r : BaseRequest) (path : Str) :
    segments '/' (r.addPath path).path = segments '/' r.path ++ segments '/' path ∧
    (segments '/' path ≠ [] → path.getLast? = some '/' →
      (r.addPath path).path.getLast? = some '/') ∧
    (¬ "//".toList <:+: r.path → ¬ "//".toList <:+: path →
      ¬ "//".toList <:+: (r.addPath path).path) ∧
    ∀ paths : List Str, segments '/' (paths.foldl addPath r).path =
      segments '/' r.path ++ paths.flatMap (segments '/') := by
  refine ⟨segments_addPath r path, ?_, not_doubled_addPath, segments_foldl_addPath r⟩
  intro hsegments hend
  rw [getLast?_addPath r hsegments, hend]

/-- An empty path, doubled slashes in an argument, and a slash at the end. -/
example : ({ path := [] : BaseRequest }.addPath "a//b/".toList).path = "/a//b/".toList := by decide

end BaseRequest

end Httb
