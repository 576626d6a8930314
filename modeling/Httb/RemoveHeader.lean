import Httb.QueryMultimap

/-!
# Removing a Header

`io_container::remove_header` erases from the vector it iterates over (`src/io_container.cpp`).
The range-for took the end of the vector before its first pass, so after an erasure it goes
one position too far, unless the erased header was the last one.

## Key Result

- `removeHeader_sound_iff`: on headers with pairwise different names `remove_header` stays
  inside the vector and removes what it should if and only if nothing stands behind a header
  that it removes
-/

namespace Httb

open Httb.Foundation

variable [Toolbox]

namespace IoContainer

variable {beyond : ℕ → Kv} {name : Str} {icase : Bool}

/-! ## One pass of the loop -/

/-- The two tests of the loop decide whether a header is filed under the name. -/
theorem removeTest_eq_filedUnder (icase : Bool) (name : Str) (h : Kv) :
    (icase && equalsIcase h.1 name || h.1 == name) = filedUnder icase name h := by
  rw [← cmp_eq_filedUnder, cmp]
  cases icase with
  | false => simp
  | true =>
    rw [equalsIcase_eq_decide, Bool.eq_iff_iff]
    simp only [Bool.true_and, Bool.or_eq_true, decide_eq_true_eq, beq_iff_eq, if_true]
    exact or_iff_left_of_imp fun heq => by rw [heq]

/-- Both branches that erase do the same. -/
theorem removeHeaderLoop_succ (remaining position i : ℕ) (headers : KvVector) (removed : Bool) :
    removeHeaderLoop beyond name icase (remaining + 1) position i headers removed =
      if filedUnder icase name (headers.getD position (beyond position)) then
        let out := removeHeaderLoop beyond name icase remaining (position + 1) (i + 1)
          (headers.eraseIdx i) true
        { out with
          accesses := ⟨position, headers.length⟩ :: ⟨i, headers.length⟩ :: out.accesses }
      else
        let out := removeHeaderLoop beyond name icase remaining (position + 1) (i + 1)
          headers removed
        { out with accesses := ⟨position, headers.length⟩ :: out.accesses } := by
  rw [removeHeaderLoop, ← removeTest_eq_filedUnder]
  cases icase && equalsIcase (headers.getD position (beyond position)).1 name <;>
    cases (headers.getD position (beyond position)).1 == name <;> rfl

/-! ## Runs of the loop -/

/-- Headers of other names are passed over. -/
theorem removeHeaderLoop_skip {pre : KvVector}
    (hpre : ∀ h ∈ pre, filedUnder icase name h = false) (before post : KvVector) (remaining : ℕ)
    (removed : Bool) :
    removeHeaderLoop beyond name icase (pre.length + remaining) before.length before.length
        (before ++ (pre ++ post)) removed =
      let out := removeHeaderLoop beyond name icase remaining (before ++ pre).length
        (before ++ pre).length (before ++ (pre ++ post)) removed
      { out with
        accesses := (List.range' before.length pre.length).map
            (fun position => ⟨position, (before ++ (pre ++ post)).length⟩) ++ out.accesses } := by
  induction pre generalizing before with
  | nil => simp
  | cons h pre ih =>
    have hfirst : (before ++ (h :: pre ++ post)).getD before.length (beyond before.length) = h := by
      simp [List.getD_eq_getElem?_getD]
    have hsucc : (h :: pre).length + remaining = (pre.length + remaining) + 1 := by
      simp only [List.length_cons]
      omega
    -- the header joins those that lie behind
    have hmoved : before ++ (h :: pre ++ post) = (before ++ [h]) ++ (pre ++ post) := by simp
    have hnext := ih (fun x hx => hpre x (List.mem_cons_of_mem _ hx)) (before ++ [h])
    rw [hsucc, removeHeaderLoop_succ, hfirst, hpre h List.mem_cons_self]
    simp only [Bool.false_eq_true, if_false]
    have hlength : (before ++ [h]).length = before.length + 1 := by simp
    rw [hlength] at hnext
    rw [hmoved, hnext]
    simp [List.range'_succ]

/-- The loop only erases. -/
theorem removeHeaderLoop_sublist (beyond : ℕ → Kv) (name : Str) (icase : Bool)
    (remaining position i : ℕ) (headers : KvVector) (removed : Bool) :
    (removeHeaderLoop beyond name icase remaining position i headers removed).headers.Sublist
      headers := by
  induction remaining generalizing position i headers removed with
  | zero => exact .refl _
  | succ remaining ih =>
    rw [removeHeaderLoop_succ]
    split
    · exact (ih ..).trans (List.eraseIdx_sublist ..)
    · exact ih ..

/-- The loop that has more positions before it than the vector has elements reads beyond it. -/
theorem removeHeaderLoop_outside (remaining position i : ℕ) (headers : KvVector) (removed : Bool)
    (hpos : 0 < remaining) (hlength : headers.length < position + remaining) :
    ∃ a ∈ (removeHeaderLoop beyond name icase remaining position i headers removed).accesses,
      a.inside = false := by
  induction remaining generalizing position i headers removed with
  | zero => omega
  | succ remaining ih =>
    rw [removeHeaderLoop_succ]
    by_cases hlast : remaining = 0
    · -- the last position is beyond the vector already
      have houtside : (⟨position, headers.length⟩ : VectorAccess).inside = false := by
        simp only [VectorAccess.inside, decide_eq_false_iff_not]
        omega
      split
      · exact ⟨_, List.mem_cons_self, houtside⟩
      · exact ⟨_, List.mem_cons_self, houtside⟩
    · split
      · -- an erasure only makes the vector shorter
        have hshorter : (headers.eraseIdx i).length ≤ headers.length := List.length_eraseIdx_le ..
        obtain ⟨a, ha, hinside⟩ := ih (position + 1) (i + 1) (headers.eraseIdx i) true
          (by omega) (by omega)
        exact ⟨a, List.mem_cons_of_mem _ (List.mem_cons_of_mem _ ha), hinside⟩
      · obtain ⟨a, ha, hinside⟩ := ih (position + 1) (i + 1) headers removed
          (by omega) (by omega)
        exact ⟨a, List.mem_cons_of_mem _ ha, hinside⟩

/-! ## The three ways of a whole loop -/

/-- Without a match the loop reads every header once. -/
theorem removeHeader_of_none {c : IoContainer}
    (hnone : ∀ h ∈ c.headers, filedUnder icase name h = false) :
    c.removeHeader beyond name icase =
      ⟨c.headers, false,
        (List.range c.headers.length).map fun position => ⟨position, c.headers.length⟩⟩ := by
  have hskip := @removeHeaderLoop_skip _ beyond _ _ _ hnone [] [] 0 false
  rw [removeHeader]
  simpa [removeHeaderLoop, List.range_eq_range'] using hskip

/-- A match at the end is read and erased where it stands. -/
theorem removeHeader_of_last {c : IoContainer} {pre : KvVector} {h : Kv}
    (hc : c.headers = pre ++ [h]) (hpre : ∀ x ∈ pre, filedUnder icase name x = false)
    (hh : filedUnder icase name h = true) :
    c.removeHeader beyond name icase =
      ⟨pre, true,
        ((List.range pre.length).map fun position => ⟨position, pre.length + 1⟩) ++
          [⟨pre.length, pre.length + 1⟩, ⟨pre.length, pre.length + 1⟩]⟩ := by
  have hskip := @removeHeaderLoop_skip _ beyond _ _ _ hpre [] [h] 1 false
  have hread : (pre ++ [h]).getD pre.length (beyond pre.length) = h := by
    simp [List.getD_eq_getElem?_getD]
  have herased : (pre ++ [h]).eraseIdx pre.length = pre := by
    simp [List.eraseIdx_append_of_length_le]
  rw [removeHeader, hc]
  simp only [List.length_nil, List.nil_append, List.length_append, List.length_singleton] at hskip
  rw [List.length_append, List.length_singleton, hskip]
  -- the last pass is the one that erases
  rw [removeHeaderLoop_succ, hread, if_pos hh, herased]
  simp [removeHeaderLoop, List.range_eq_range']

/-- After a match before the end the loop still goes to the old end of the vector. -/
theorem removeHeader_of_inner {c : IoContainer} {pre post : KvVector} {h : Kv}
    (hc : c.headers = pre ++ h :: post) (hpre : ∀ x ∈ pre, filedUnder icase name x = false)
    (hh : filedUnder icase name h = true) (hpost : post ≠ []) :
    ∃ a ∈ (c.removeHeader beyond name icase).accesses, a.inside = false := by
  have hskip := @removeHeaderLoop_skip _ beyond _ _ _ hpre [] (h :: post) (post.length + 1) false
  have hread : (pre ++ h :: post).getD pre.length (beyond pre.length) = h := by
    simp [List.getD_eq_getElem?_getD]
  have herased : (pre ++ h :: post).eraseIdx pre.length = pre ++ post := by
    simp [List.eraseIdx_append_of_length_le]
  have hpos : 0 < post.length := List.length_pos_iff.mpr hpost
  -- `post.length` passes are left, of which the last one stands at the old last position
  obtain ⟨a, ha, hinside⟩ := @removeHeaderLoop_outside _ beyond name icase post.length
    (pre.length + 1) (pre.length + 1) (pre ++ post) true hpos (by rw [List.length_append]; omega)
  refine ⟨a, ?_, hinside⟩
  rw [removeHeader, hc]
  simp only [List.length_nil, List.nil_append] at hskip
  rw [List.length_append, List.length_cons, hskip, removeHeaderLoop_succ, hread, if_pos hh, herased]
  simp [ha]

/-! ## Soundness -/

/-- What `remove_header` is for: it stays inside the vector, leaves the other headers, and
says whether it found the name. -/
def RemovesSoundly (beyond : ℕ → Kv) (c : IoContainer) (name : Str) (icase : Bool) : Prop :=
  (∀ a ∈ (c.removeHeader beyond name icase).accesses, a.inside = true) ∧
    (c.removeHeader beyond name icase).headers =
      c.headers.filter (fun h => !filedUnder icase name h) ∧
    ((c.removeHeader beyond name icase).removed = true ↔
      ∃ h ∈ c.headers, filedUnder icase name h = true)

theorem soundly_of_none {c : IoContainer}
    (hnone : ∀ h ∈ c.headers, filedUnder icase name h = false) :
    RemovesSoundly beyond c name icase := by
  rw [RemovesSoundly, removeHeader_of_none hnone]
  refine ⟨fun a ha => ?_, ?_, ?_⟩
  · obtain ⟨position, hposition, rfl⟩ := List.mem_map.mp ha
    simpa [VectorAccess.inside] using hposition
  · symm
    apply List.filter_eq_self.mpr
    intro h hmem
    rw [hnone h hmem, Bool.not_false]
  · simp only [Bool.false_eq_true, false_iff, not_exists, not_and, Bool.not_eq_true]
    exact hnone

theorem soundly_of_last {c : IoContainer} {pre : KvVector} {h : Kv}
    (hc : c.headers = pre ++ [h]) (hpre : ∀ x ∈ pre, filedUnder icase name x = false)
    (hh : filedUnder icase name h = true) : RemovesSoundly beyond c name icase := by
  rw [RemovesSoundly, removeHeader_of_last hc hpre hh, hc]
  refine ⟨fun a ha => ?_, ?_, ?_⟩
  · simp only [List.mem_append, List.mem_map, List.mem_range, List.mem_cons, List.not_mem_nil,
      or_false, or_self] at ha
    rcases ha with ⟨position, hposition, rfl⟩ | rfl
    · simp only [VectorAccess.inside, decide_eq_true_eq]
      omega
    · simp [VectorAccess.inside]
  · have hkeep : pre.filter (fun h => !filedUnder icase name h) = pre :=
      List.filter_eq_self.mpr fun x hx => by rw [hpre x hx, Bool.not_false]
    rw [List.filter_append, hkeep]
    simp [hh]
  · exact iff_of_true rfl ⟨h, by simp, hh⟩

/-- A header that equals the last one is the last one, as no name occurs twice. -/
theorem post_eq_nil_of_getLast? {headers pre post : KvVector} {h : Kv}
    (hnames : headers.Pairwise fun a b => equalsIcase a.1 b.1 = false)
    (hc : headers = pre ++ h :: post) (hlast : headers.getLast? = some h) : post = [] := by
  by_contra hpost
  obtain ⟨init, x, rfl⟩ := (List.eq_nil_or_concat' post).resolve_left hpost
  subst hc
  rw [← List.cons_append, ← List.append_assoc, List.getLast?_concat, Option.some_inj] at hlast
  subst hlast
  rw [List.pairwise_append, List.pairwise_cons] at hnames
  have hself := hnames.2.1.1 x (by simp)
  rw [equalsIcase_eq_decide] at hself
  simp at hself

/-- On headers of pairwise different names `remove_header` is sound exactly when every
header that it should remove is the last one. -/
theorem removeHeader_sound_iff (beyond : ℕ → Kv) (c : IoContainer) (name : Str) (icase : Bool)
    (hnames : c.headers.Pairwise fun a b => equalsIcase a.1 b.1 = false) :
    RemovesSoundly beyond c name icase ↔
      ∀ h ∈ c.headers, filedUnder icase name h = true → c.headers.getLast? = some h := by
  cases hfind : c.headers.find? (filedUnder icase name) with
  | none =>
    -- nothing matches, and both sides hold
    have hnone : ∀ h ∈ c.headers, filedUnder icase name h = false := by
      simpa using List.find?_eq_none.mp hfind
    apply iff_of_true (soundly_of_none hnone)
    intro h hmem hh
    rw [hnone h hmem] at hh
    cases hh
  | some h =>
    obtain ⟨hh, pre, post, hc, hpre⟩ := List.find?_eq_some_iff_append.mp hfind
    have hpre : ∀ x ∈ pre, filedUnder icase name x = false := by simpa using hpre
    constructor
    · intro hsound x hmem hx
      by_cases hpost : post = []
      · -- the first match is the only one
        subst hpost
        rw [hc, List.mem_append, List.mem_singleton] at hmem
        rcases hmem with hmem | rfl
        · rw [hpre x hmem] at hx
          cases hx
        · rw [hc, List.getLast?_concat]
      · obtain ⟨a, ha, hinside⟩ := @removeHeader_of_inner _ beyond _ _ _ _ _ _ hc hpre hh hpost
        rw [hsound.1 a ha] at hinside
        cases hinside
    · intro hlast
      have hpost : post = [] := post_eq_nil_of_getLast? hnames hc
        (hlast h (by rw [hc]; simp) hh)
      exact soundly_of_last (by rw [hc, hpost]) hpre hh

omit [Toolbox] in
/-- `remove_header("B")` on the headers `a` and `b` meets the condition. -/
theorem removeHeader_sound_ab :
    @RemovesSoundly .reference (fun _ => ([], []))
      { headers := [("a".toList, "1".toList), ("b".toList, "2".toList)] } "B".toList true := by
  let _ : Toolbox := .reference
  apply (removeHeader_sound_iff _ _ _ _ (by decide)).mpr
  decide

omit [Toolbox] in
/-- `remove_header("a")` on the headers `a` and `b` reads position 1 of a vector that has
one element left. -/
theorem removeHeader_reads_outside :
    ¬ ∀ (_ : Toolbox) (beyond : ℕ → Kv) (c : IoContainer) (name : Str) (icase : Bool),
      (c.headers.Pairwise fun a b => equalsIcase a.1 b.1 = false) →
        RemovesSoundly beyond c name icase := by
  intro h
  let _ : Toolbox := .reference
  have hsound := h .reference (fun _ => ([], []))
    { headers := [("a".toList, "1".toList), ("b".toList, "2".toList)] } "a".toList true (by decide)
  exact absurd (hsound.1 ⟨1, 1⟩ (by decide)) (by decide)

end IoContainer

end Httb
