import Httb.BaseRequest
import Httb.Foundation.EraseMatch
import Httb.Foundation.OrderedMap

/-!
# The Query Parameters Form an Ordered Multimap

The abstract view of the parameter list: for a key and a case flag, the subsequence
`matching` of the entries filed under that key. All readers are functions of it, and the
two removing loops delete from it: `remove_query` all of it, `remove_query_array` its
`i`-th entry, with the entries outside of it left where they are. `set_query` writes its value
to the whole subsequence, and adds nothing when that is empty.
-/

namespace Httb

open Httb.Foundation

variable [Toolbox]

/-- The name is filed under the key: equal, or equal when both are in lower case. -/
def SameKey (icase : Bool) (name key : Str) : Prop :=
  if icase then toLowerCase name = toLowerCase key else name = key

instance (icase : Bool) (name key : Str) : Decidable (SameKey icase name key) := by
  unfold SameKey
  infer_instance

/-- The entry is filed under the key. -/
def filedUnder (icase : Bool) (key : Str) (param : Kv) : Bool := decide (SameKey icase param.1 key)

/-- The entries filed under a key, in order. -/
def matching (icase : Bool) (key : Str) (params : KvVector) : KvVector :=
  params.filter (filedUnder icase key)

/-- The lambda of the query functions decides whether an entry is filed under the key. -/
theorem cmp_eq_filedUnder (icase : Bool) (param : Kv) (key : Str) :
    cmp icase param.1 key = filedUnder icase key param := by
  rw [Bool.eq_iff_iff, filedUnder, decide_eq_true_iff]
  cases icase
  · simp [cmp, SameKey]
  · simp [cmp, SameKey, equalsIcase_eq_decide]

namespace BaseRequest

/-! ## Readers -/

theorem getQueryArray_eq (r : BaseRequest) (key : Str) (icase : Bool) :
    r.getQueryArray key icase = (matching icase key r.params).map Prod.snd := by
  simp only [getQueryArray, matching, cmp_eq_filedUnder]

theorem findQuery_eq (r : BaseRequest) (key : Str) (icase : Bool) :
    r.findQuery key icase = (matching icase key r.params).head? := by
  simp only [findQuery, matching, cmp_eq_filedUnder, List.head?_filter]

theorem hasQuery_iff (r : BaseRequest) (key : Str) (icase : Bool) :
    r.hasQuery key icase = true ↔ matching icase key r.params ≠ [] := by
  simp [hasQuery, matching, cmp_eq_filedUnder, List.filter_eq_nil_iff]

theorem getQueryValue_eq (r : BaseRequest) (key : Str) (icase : Bool) :
    r.getQueryValue key icase = ((matching icase key r.params).head?.map Prod.snd).getD [] := by
  rw [← findQuery_eq, getQueryValue, findQuery]
  cases r.params.find? fun param => cmp icase param.1 key <;> rfl

/-! ## The removing loops -/

/-- The invariant of `remove_query_array`'s loop: with `foundCount` matches behind it, the
loop still has to delete match number `index - foundCount` of what is left, unless it has
passed that one already. -/
theorem removeQueryArrayLoop_eq (key : Str) (index : UInt64) (icase : Bool) (params : KvVector)
    (foundCount erasedItems : Nat) :
    removeQueryArrayLoop key index icase foundCount erasedItems params =
      if foundCount ≤ index.toNat then
        (eraseMatch (filedUnder icase key)
            (index.toNat - foundCount) params,
          erasedItems +
            if index.toNat - foundCount < (matching icase key params).length then 1 else 0)
      else (params, erasedItems) := by
  -- by induction on what is left, for all counters
  induction params generalizing foundCount erasedItems with
  | nil => split <;> simp [removeQueryArrayLoop, matching]
  | cons it rest ih =>
    rw [removeQueryArrayLoop, cmp_eq_filedUnder]
    by_cases hit : filedUnder icase key it = true
    · have hmatch : (matching icase key (it :: rest)).length =
          (matching icase key rest).length + 1 := by
        simp [matching, hit]
      rw [if_pos hit, hmatch]
      rcases Nat.lt_trichotomy foundCount index.toNat with hlt | heq | hgt
      · -- an earlier match: it is passed over and counted
        have hle : foundCount ≤ index.toNat := Nat.le_of_lt hlt
        have hle' : foundCount + 1 ≤ index.toNat := hlt
        have hstep : index.toNat - foundCount = index.toNat - (foundCount + 1) + 1 := by omega
        rw [if_neg (Nat.ne_of_lt hlt), ih, if_pos hle, if_pos hle', hstep,
          eraseMatch_succ_cons hit]
        simp
      · -- the match to delete: after it the count is past the index
        rw [if_pos heq, ih, if_neg (by omega), if_pos (Nat.le_of_eq heq), heq, Nat.sub_self,
          eraseMatch_zero_cons hit, if_pos (Nat.succ_pos _)]
      · -- the match to delete lies behind
        rw [if_neg (by omega), ih, if_neg (by omega), if_neg (by omega)]
    · -- no match: kept, and not counted
      have hmatch : (matching icase key (it :: rest)).length =
          (matching icase key rest).length := by
        simp [matching, hit]
      rw [if_neg hit, ih, hmatch]
      split
      · rw [eraseMatch_cons_of_neg (by simpa using hit)]
      · rfl

theorem removeQueryLoop_eq (key : Str) (icase : Bool) (params : KvVector) (foundCount : Nat) :
    removeQueryLoop key icase foundCount params =
      (params.filter (fun param => !filedUnder icase key param),
        foundCount + (matching icase key params).length) := by
  induction params generalizing foundCount with
  | nil => rfl
  | cons it rest ih =>
    rw [removeQueryLoop, cmp_eq_filedUnder]
    by_cases hit : filedUnder icase key it = true
    · rw [if_pos hit, ih]
      simp only [matching, List.filter_cons_of_pos hit, List.length_cons]
      simp [hit, Nat.add_right_comm, Nat.add_assoc]
    · rw [if_neg hit, ih]
      simp [matching, hit]

/-! ## The removing operations -/

theorem removeQuery_eq (r : BaseRequest) (key : Str) (icase : Bool) :
    r.removeQuery key icase =
      ({ r with params := r.params.filter fun param => !filedUnder icase key param },
        decide (matching icase key r.params ≠ [])) := by
  rw [removeQuery, removeQueryLoop_eq]
  simp [List.length_pos_iff]

theorem removeQueryArray_eq (r : BaseRequest) (key : Str) (i : UInt64) (icase : Bool) :
    r.removeQueryArray key i icase =
      ({ r with params :=
          eraseMatch (filedUnder icase key) i.toNat r.params },
        decide (i.toNat < (matching icase key r.params).length)) := by
  rw [removeQueryArray, removeQueryArrayLoop_eq, if_pos (Nat.zero_le _)]
  by_cases h : i.toNat < (matching icase key r.params).length <;> simp [h]

/-- Removing the first match once per match is removing all matches. -/
theorem iterate_removeQueryArray_zero (r : BaseRequest) (key : Str) (icase : Bool) :
    (fun r : BaseRequest => (r.removeQueryArray key 0 icase).1)^[
        (matching icase key r.params).length] r = (r.removeQuery key icase).1 := by
  have hiter : ∀ k, (fun r : BaseRequest => (r.removeQueryArray key 0 icase).1)^[k] r =
      { r with params :=
          (eraseMatch (filedUnder icase key) 0)^[k] r.params } := by
    intro k
    induction k with
    | zero => rfl
    | succ k ih =>
      rw [Function.iterate_succ_apply', ih, removeQueryArray_eq, Function.iterate_succ_apply']
      rfl
  rw [hiter, removeQuery_eq, matching, iterate_eraseMatch_zero]

end BaseRequest

/-- **The query operations agree on one ordered multimap.** With `M` the entries filed
under the key: the readers return `M`'s values, its first entry and whether it is empty;
`remove_query` leaves the other entries and reports whether `M` was non-empty;
`remove_query_array` deletes the `i`-th entry of `M` alone and reports whether there is
one; and removing entry zero once for each entry of `M` is `remove_query`. -/
theorem query_operations_agree (r : BaseRequest) (key : Str) (icase : Bool) :
    let M := matching icase key r.params
    r.getQueryArray key icase = M.map Prod.snd ∧
    (r.hasQuery key icase = true ↔ M ≠ []) ∧
    r.findQuery key icase = M.head? ∧
    r.getQueryValue key icase = (M.head?.map Prod.snd).getD [] ∧
    r.removeQuery key icase =
      ({ r with params := r.params.filter fun param => !filedUnder icase key param },
        decide (M ≠ [])) ∧
    (∀ i : UInt64,
      (r.removeQueryArray key i icase).2 = decide (i.toNat < M.length) ∧
      (∀ h : i.toNat < M.length, ∃ pre post : KvVector,
        r.params = pre ++ M[i.toNat] :: post ∧
        (matching icase key pre).length = i.toNat ∧
        (r.removeQueryArray key i icase).1 = { r with params := pre ++ post }) ∧
      (M.length ≤ i.toNat → (r.removeQueryArray key i icase).1 = r)) ∧
    (fun r : BaseRequest => (r.removeQueryArray key 0 icase).1)^[M.length] r =
      (r.removeQuery key icase).1 := by
  intro M
  refine ⟨r.getQueryArray_eq key icase, r.hasQuery_iff key icase, r.findQuery_eq key icase,
    r.getQueryValue_eq key icase, r.removeQuery_eq key icase, fun i => ⟨?flag, ?hit, ?miss⟩,
    r.iterate_removeQueryArray_zero key icase⟩
  case flag => rw [BaseRequest.removeQueryArray_eq]
  case hit =>
    intro h
    obtain ⟨pre, post, hparams, hlen, herase⟩ := eraseMatch_split h
    exact ⟨pre, post, hparams, hlen, by rw [BaseRequest.removeQueryArray_eq, herase]⟩
  case miss =>
    intro h
    rw [BaseRequest.removeQueryArray_eq, eraseMatch_of_length_le h]

/-! ## The overwriting operation -/

namespace BaseRequest

theorem setQuery_eq (r : BaseRequest) (key value : Str) (icase : Bool) :
    r.setQuery key value icase =
      { r with params :=
          overwriteAll (fun name => decide (SameKey icase name key)) value r.params } := by
  simp only [setQuery, overwriteAll, cmp_eq_filedUnder, filedUnder]

/-- The entries under the key are those that were there, with the new value. -/
theorem matching_setQuery (r : BaseRequest) (key value : Str) (icase : Bool) :
    matching icase key (r.setQuery key value icase).params =
      (matching icase key r.params).map fun param => (param.1, value) := by
  rw [setQuery_eq]
  exact filter_overwriteAll (fun name => decide (SameKey icase name key)) value r.params

end BaseRequest

/-- After `set_query` the key has the value: it is there, it is what the readers return, and
the entries under other names are the same in the same order. -/
structure QuerySet (r : BaseRequest) (key value : Str) (icase : Bool) : Prop where
  present : (r.setQuery key value icase).hasQuery key icase = true
  first : (r.setQuery key value icase).getQueryValue key icase = value
  all : ∀ v ∈ (r.setQuery key value icase).getQueryArray key icase, v = value
  others : (r.setQuery key value icase).params.filter (fun param => !filedUnder icase key param) =
    r.params.filter fun param => !filedUnder icase key param

/-- **`set_query` sets what is there, exactly.** The key has the value afterwards if and only if
some parameter had the key before. -/
theorem querySet_iff (r : BaseRequest) (key value : Str) (icase : Bool) :
    QuerySet r key value icase ↔ r.hasQuery key icase = true := by
  have hmatching := r.matching_setQuery key value icase
  rw [BaseRequest.hasQuery_iff]
  constructor
  · intro h hnone
    have hsome := (BaseRequest.hasQuery_iff _ key icase).mp h.present
    rw [hmatching, hnone] at hsome
    exact hsome rfl
  · intro hsome
    obtain ⟨param, rest, hparams⟩ := List.exists_cons_of_ne_nil hsome
    rw [hparams, List.map_cons] at hmatching
    refine ⟨?present, ?first, ?all, ?others⟩
    case present =>
      rw [BaseRequest.hasQuery_iff, hmatching]
      exact List.cons_ne_nil _ _
    case first =>
      rw [BaseRequest.getQueryValue_eq, hmatching]
      rfl
    case all =>
      rw [BaseRequest.getQueryArray_eq, hmatching]
      intro v hv
      simp only [List.map_cons, List.map_map, List.mem_cons, List.mem_map] at hv
      rcases hv with rfl | ⟨other, -, rfl⟩
      · rfl
      · rfl
    case others =>
      rw [BaseRequest.setQuery_eq]
      exact filter_not_overwriteAll (fun name => decide (SameKey icase name key)) value r.params

omit [Toolbox] in
/-- A key that no parameter has is not added. -/
theorem setQuery_absent :
    letI := Toolbox.reference
    let r : BaseRequest := {}
    (r.setQuery "param".toList "value1".toList true).hasQuery "param".toList true = false ∧
      ¬ QuerySet r "param".toList "value1".toList true := by
  let := Toolbox.reference
  refine ⟨by decide, ?_⟩
  intro h
  exact absurd h.present (by decide)

/-- A negative index arrives as a huge `size_t` and finds nothing to remove. -/
example :
    letI := Toolbox.reference
    let r : BaseRequest := { params := [("k".toList, "1".toList), ("K".toList, "2".toList)] }
    r.removeQueryArray "k".toList (-10) = (r, false) := by
  decide

end Httb
